import LedgerWire.Operation
import LedgerWire.Proofs.Identifier.LooseEquality
import LedgerWire.Proofs.Text.ColonPath

/-!
What a printed module and the printed target of a call tell. A package is printed without colons, so
it ends at the first one. Names may hold colons of their own: behind a package any name can be told,
and the name of a module is told from the function behind it if no pair of colons ends it early.
-/

namespace LedgerWire

open ColonPath

namespace Identifier

variable {width : Nat}

theorem no_colon_shortText (identifier : Identifier width) : ':' ∉ identifier.shortText.toList := by
  intro member
  rw [shortText_eq, String.toList_append, toList_text, List.mem_append] at member
  rcases member with inMark | inDigits
  · exact absurd inMark (by decide)
  · obtain ⟨digit, inside, isColon⟩ := List.mem_map.1 inDigits
    exact digit_ne_colon (isDigit_shortDigits identifier digit inside) isColon

theorem shortText_cut {left right : Identifier width} {rest behind : List Char} :
    left.shortText.toList ++ separator ++ rest = right.shortText.toList ++ separator ++ behind ↔
      left = right ∧ rest = behind := by
  constructor
  · intro same
    have closed := closed_of_no_colon (no_colon_shortText left)
    have closedToo := closed_of_no_colon (no_colon_shortText right)
    obtain ⟨sameText, sameRest⟩ := closed.cut_unique closedToo same
    exact ⟨shortText_inj.1 (String.toList_inj.1 sameText), sameRest⟩
  · rintro ⟨rfl, rfl⟩
    rfl

end Identifier

def beforeColon (text : String) : String := String.ofList (text.toList.takeWhile (· ≠ ':'))

theorem beforeColon_eq {text : String} {front behind : List Char} (noColon : ':' ∉ front)
    (shape : text.toList = front ++ ':' :: behind) : beforeColon text = String.ofList front := by
  have others : ∀ character ∈ front, decide (character ≠ ':') = true := by
    intro character member
    refine decide_eq_true fun isColon => noColon ?_
    rwa [← isColon]
  rw [beforeColon, shape, List.takeWhile_append_of_pos others]
  simp

namespace ModuleName

theorem toList_text (module : ModuleName) :
    module.text.toList = module.package.shortText.toList ++ separator ++ module.name.toList := by
  simp [text, separator]

theorem text_inj {module other : ModuleName} : module.text = other.text ↔ module = other := by
  rw [← String.toList_inj, toList_text, toList_text, Identifier.shortText_cut, String.toList_inj]
  cases module
  cases other
  simp

end ModuleName

/-- A name that holds no pair of colons, and makes none with colons behind it. -/
structure PlainName (name : String) : Prop where
  whole : ¬ "::".toList <:+: name.toList
  ends : ¬ ":".toList <:+ name.toList

theorem PlainName.closed {name : String} (plain : PlainName name) : Closed name.toList :=
  closed_iff.2 ⟨plain.whole, plain.ends⟩

namespace FunctionCall

/-- What is called, whatever it is called with. -/
structure SameFunction (call other : FunctionCall) : Prop where
  package : call.package = other.package
  module : call.module = other.module
  function : call.function = other.function

variable {call other : FunctionCall}

theorem toList_target (call : FunctionCall) :
    call.target.toList = call.package.shortText.toList ++ separator ++
      (call.module.toList ++ separator ++ call.function.toList) := by
  simp [target, moduleName, ModuleName.text, separator]

theorem target_eq_iff : call.target = other.target ↔ call.package = other.package ∧
    call.module.toList ++ separator ++ call.function.toList =
      other.module.toList ++ separator ++ other.function.toList := by
  rw [← String.toList_inj, toList_target, toList_target, Identifier.shortText_cut]

theorem target_eq_iff_sameFunction (plain : PlainName call.module) (plainToo : PlainName other.module) :
    call.target = other.target ↔ call.SameFunction other := by
  rw [target_eq_iff]
  constructor
  · rintro ⟨package, behind⟩
    obtain ⟨module, function⟩ := plain.closed.cut_unique plainToo.closed behind
    exact ⟨package, String.toList_inj.1 module, String.toList_inj.1 function⟩
  · rintro ⟨package, module, function⟩
    rw [module, function]
    exact ⟨package, rfl⟩

theorem ofHex_beforeColon_target (call : FunctionCall) :
    Identifier.ofHex (beforeColon call.target) = .ok call.package := by
  have shape : call.target.toList = call.package.shortText.toList ++
      ':' :: ':' :: (call.module.toList ++ separator ++ call.function.toList) := by
    rw [toList_target]
    simp [separator]
  rw [beforeColon_eq (Identifier.no_colon_shortText call.package) shape, String.ofList_toList]
  exact (Identifier.ofHex_shortText call.package (by decide)).1

theorem text_call_eq_iff :
    (Operation.call call).text = (Operation.call other).text ↔ call.target = other.target := by
  rw [← String.toList_inj, ← String.toList_inj]
  simp [Operation.text]

/-- A printed target tells which function is called, and so does the text of an operation that calls
it, if the name of the module holds no pair of colons and does not end in a colon. The package is read
back from what stands before the first colon of any target, and a printed module tells the module
whatever its name. -/
theorem target_tells_function :
    (∀ call other : FunctionCall, PlainName call.module → PlainName other.module →
      (call.target = other.target ↔ call.SameFunction other)) ∧
    (∀ call : FunctionCall, Identifier.ofHex (beforeColon call.target) = .ok call.package) ∧
    (∀ module other : ModuleName, module.text = other.text ↔ module = other) ∧
    ∀ call other : FunctionCall, PlainName call.module → PlainName other.module →
      ((Operation.call call).text = (Operation.call other).text ↔ call.SameFunction other) := by
  refine ⟨?_, ofHex_beforeColon_target, fun _ _ => ModuleName.text_inj, ?_⟩
  · intro call other plain plainToo
    exact target_eq_iff_sameFunction plain plainToo
  · intro call other plain plainToo
    rw [text_call_eq_iff, target_eq_iff_sameFunction plain plainToo]

def callOf (module function : String) (arguments : List Json.FreeForm) : FunctionCall :=
  ⟨.zero addressWidth, module, function, [], arguments⟩

theorem colons_in_names_told_apart :
    PlainName ":a:b" ∧ PlainName ":a" ∧
      (callOf ":a:b" "::c" []).target ≠ (callOf ":a" "b::::c" []).target ∧
      (Operation.call (callOf ":a:b" "::c" [])).text =
        (Operation.call (callOf ":a:b" "::c" [.ofValue .null])).text ∧
      Identifier.ofHex (beforeColon (callOf ":a:b" "::c" []).target) =
        .ok (Identifier.zero addressWidth) := by
  obtain ⟨sameTarget, package, _, sameText⟩ := target_tells_function
  have plain : PlainName ":a:b" := ⟨by decide, by decide⟩
  have plainToo : PlainName ":a" := ⟨by decide, by decide⟩
  refine ⟨plain, plainToo, ?_, ?_, package _⟩
  · intro same
    have sameModule := ((sameTarget _ _ plain plainToo).1 same).module
    exact absurd sameModule (by decide)
  · exact (sameText _ _ plain plain).2 ⟨rfl, rfl, rfl⟩

example : (callOf "a:" "b" []).target = (callOf "a" ":b" []).target := by decide

end FunctionCall

end LedgerWire
