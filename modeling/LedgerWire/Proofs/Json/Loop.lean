import LedgerWire.Proofs.Json.Lexeme

/-!
Lists and records as entries between brackets: two readers compared entry by entry, and the entries
of a text that is written with a comma between any two.
-/

namespace LedgerWire.Json

variable {σ τ : Type}

theorem readEntries_succ (close : UInt8) (entry : σ → Reader σ) (bound : Nat) (isFirst : Bool)
    (state : σ) (bytes : Bytes) :
    readEntries close entry (bound + 1) isFirst state bytes =
      nextEntry close isFirst bytes >>= fun next =>
        match next with
        | .finished rest => .ok (state, rest)
        | .entry rest => entry state rest >>= fun (state, rest) =>
            readEntries close entry bound false state rest := rfl

theorem readEntries_eq_ok {close : UInt8} {entry : σ → Reader σ} {bound : Nat} {isFirst : Bool}
    {state final : σ} {bytes rest : Bytes}
    (read : readEntries close entry (bound + 1) isFirst state bytes = .ok (final, rest)) :
    (nextEntry close isFirst bytes = .ok (.finished rest) ∧ final = state) ∨
      ∃ start next after, nextEntry close isFirst bytes = .ok (.entry start) ∧
        entry state start = .ok (next, after) ∧
        readEntries close entry bound false next after = .ok (final, rest) := by
  rw [readEntries_succ, bind_eq_ok] at read
  rcases read with ⟨next, place, later⟩
  cases next with
  | finished stop =>
      simp only [Except.ok.injEq, Prod.mk.injEq] at later
      rcases later with ⟨same, stopped⟩
      subst same
      subst stopped
      exact Or.inl ⟨place, rfl⟩
  | entry start =>
      obtain ⟨⟨next, after⟩, taken, looped⟩ := bind_eq_ok.1 later
      exact Or.inr ⟨start, next, after, place, taken, looped⟩

def Begins (close : UInt8) (text : Bytes) : Prop :=
  ∃ byte tail, text = byte :: tail ∧ isBlank byte = false ∧ byte ≠ close

theorem nextEntry_finished (close : UInt8) (isFirst : Bool) (rest : Bytes)
    (notBlank : isBlank close = false) :
    nextEntry close isFirst (close :: rest) = .ok (.finished rest) := by
  simp [nextEntry, skipBlanks_of_head close rest notBlank]

theorem nextEntry_first (close : UInt8) (text rest : Bytes) (begins : Begins close text) :
    nextEntry close true (text ++ rest) = .ok (.entry (text ++ rest)) := by
  rcases begins with ⟨byte, tail, shape, notBlank, notClose⟩
  subst shape
  rw [List.cons_append, nextEntry, skipBlanks_of_head _ _ notBlank]
  simp [notClose]

theorem nextEntry_later (close : UInt8) (text rest : Bytes) (begins : Begins close text)
    (notComma : comma ≠ close) :
    nextEntry close false (comma :: (text ++ rest)) = .ok (.entry (text ++ rest)) := by
  rcases begins with ⟨byte, tail, shape, notBlank, notClose⟩
  subst shape
  rw [List.cons_append, nextEntry, skipBlanks_of_head comma _ (by decide)]
  simp [notComma, skipBlanks_of_head _ _ notBlank, notClose]

theorem between_cons (separator : UInt8) (first : Bytes) (others : List Bytes) :
    between separator (first :: others) = first ++ others.flatMap fun text => separator :: text := by
  induction others generalizing first with
  | nil => simp [between]
  | cons second rest ih => rw [between, ih, List.flatMap_cons, List.cons_append]; simp

/-- What a reader makes of one written entry, whatever comes after it. -/
def ReadsEntry (close : UInt8) (entry : σ → Reader σ) (text : τ → Bytes) (step : σ → τ → σ)
    (thing : τ) : Prop :=
  ∀ state after rest, after = comma ∨ after = close →
    entry state (text thing ++ after :: rest) = .ok (step state thing, after :: rest)

theorem written_tail (close : UInt8) (text : τ → Bytes) (others : List τ) (rest : Bytes) :
    ∃ after behind, (after = comma ∨ after = close) ∧
      (others.flatMap fun thing => comma :: text thing) ++ close :: rest = after :: behind := by
  cases others with
  | nil => exact ⟨close, rest, Or.inr rfl, rfl⟩
  | cons next more => exact ⟨comma, _, Or.inl rfl, rfl⟩

theorem readEntries_later {close : UInt8} {entry : σ → Reader σ} {text : τ → Bytes}
    {step : σ → τ → σ} (notBlank : isBlank close = false) (notComma : comma ≠ close)
    (things : List τ) : ∀ bound state rest,
    (∀ thing ∈ things, Begins close (text thing)) →
    (∀ thing ∈ things, ReadsEntry close entry text step thing) →
    things.length < bound →
      readEntries close entry bound false state
        ((things.flatMap fun thing => comma :: text thing) ++ close :: rest) =
        .ok (things.foldl step state, rest) := by
  induction things with
  | nil =>
      intro bound state rest _ _ enough
      obtain ⟨spare, same⟩ := Nat.exists_eq_add_of_lt enough
      subst same
      rw [readEntries_succ, List.flatMap_nil, List.nil_append,
        nextEntry_finished close false rest notBlank]
      rfl
  | cons thing others ih =>
      intro bound state rest begins reads enough
      obtain ⟨spare, same⟩ : ∃ spare, bound = spare + 1 := ⟨bound - 1, by omega⟩
      subst same
      have place := nextEntry_later close (text thing)
        ((others.flatMap fun thing => comma :: text thing) ++ close :: rest)
        (begins thing List.mem_cons_self) notComma
      obtain ⟨after, behind, kind, shape⟩ := written_tail close text others rest
      have taken := reads thing List.mem_cons_self state after behind kind
      rw [readEntries_succ, List.flatMap_cons, List.append_assoc, List.cons_append, place]
      simp only [ok_bind]
      rw [shape, taken]
      simp only [ok_bind]
      rw [← shape, ih spare (step state thing) rest
        (fun other member => begins other (List.mem_cons_of_mem _ member))
        (fun other member => reads other (List.mem_cons_of_mem _ member))
        (by simp only [List.length_cons] at enough; omega)]
      rfl

theorem length_le_flatMap (text : τ → Bytes) (things : List τ) :
    things.length ≤ (things.flatMap fun thing => comma :: text thing).length := by
  induction things with
  | nil => exact Nat.le_refl _
  | cons thing others ih =>
      simp only [List.flatMap_cons, List.length_append, List.length_cons]
      omega

theorem readAll_between {close : UInt8} {entry : σ → Reader σ} {text : τ → Bytes}
    {step : σ → τ → σ} (notBlank : isBlank close = false) (notComma : comma ≠ close)
    (things : List τ) (start : σ) (rest : Bytes)
    (begins : ∀ thing ∈ things, Begins close (text thing))
    (reads : ∀ thing ∈ things, ReadsEntry close entry text step thing) :
    readAll close entry start (between comma (things.map text) ++ close :: rest) =
      .ok (things.foldl step start, rest) := by
  cases things with
  | nil =>
      rw [readAll, List.map_nil, between, List.nil_append, readEntries_succ,
        nextEntry_finished close true rest notBlank]
      rfl
  | cons thing others =>
      have written : between comma ((thing :: others).map text) ++ close :: rest =
          text thing ++ ((others.flatMap fun thing => comma :: text thing) ++ close :: rest) := by
        rw [List.map_cons, between_cons, List.flatMap_map, List.append_assoc]
      have place := nextEntry_first close (text thing)
        ((others.flatMap fun thing => comma :: text thing) ++ close :: rest)
        (begins thing List.mem_cons_self)
      obtain ⟨after, behind, kind, shape⟩ := written_tail close text others rest
      have taken := reads thing List.mem_cons_self start after behind kind
      have enough := length_le_flatMap text others
      rw [written, readAll, readEntries_succ, place]
      simp only [ok_bind]
      rw [shape, taken]
      simp only [ok_bind]
      rw [← shape, readEntries_later notBlank notComma others _ (step start thing) rest
        (fun other member => begins other (List.mem_cons_of_mem _ member))
        (fun other member => reads other (List.mem_cons_of_mem _ member))
        (by simp only [List.length_append, List.length_cons]; omega)]
      rfl

end LedgerWire.Json
