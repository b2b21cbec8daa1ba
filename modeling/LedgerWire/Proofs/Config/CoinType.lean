import LedgerWire.Config
import LedgerWire.Proofs.Identifier.LooseEquality
import LedgerWire.Proofs.Outcome
import LedgerWire.Proofs.Text.ColonPath

/-!
Which settings stand up to their checks. The coin that pays for gas is named by a path of a package,
a module and a name; a path is taken in one way only, and settings with several faults are refused for
the first of them.
-/

namespace LedgerWire

namespace ClientConfig

open ColonPath

theorem pathParts_cons {first : Char} {rest part : List Char} {parts : List (List Char)}
    (noPair : ¬ separator <+: first :: rest) (found : pathParts rest = part :: parts) :
    pathParts (first :: rest) = (first :: part) :: parts := by
  unfold pathParts
  split
  · rename_i impossible
    simp at impossible
  · rename_i others same
    rw [same] at noPair
    exact absurd (List.prefix_append separator others) noPair
  · rename_i same
    cases same
    rw [found]

theorem pathParts_whole {text : List Char} (whole : Whole text) : pathParts text = [text] := by
  induction text with
  | nil => rfl
  | cons first rest ih =>
      obtain ⟨noPair, restWhole⟩ := whole_cons.1 whole
      exact pathParts_cons noPair (ih restWhole)

theorem pathParts_closed {part : List Char} (closed : Closed part) (rest : List Char) :
    pathParts (part ++ separator ++ rest) = part :: pathParts rest := by
  induction part with
  | nil => rfl
  | cons first others ih =>
      obtain ⟨noPair, othersClosed⟩ := closed_cons.1 closed
      exact pathParts_cons (begins_before_separator.not.2 noPair) (ih othersClosed)

theorem divides_cons {first : Char} {rest part : List Char} {parts : List (List Char)}
    (noPair : ¬ separator <+: first :: rest) (divided : Divides rest (part :: parts)) :
    Divides (first :: rest) ((first :: part) :: parts) := by
  cases divided with
  | last whole => exact .last (whole_cons.2 ⟨noPair, whole⟩)
  | part closed others =>
      exact .part (closed_cons.2 ⟨begins_before_separator.not.1 noPair, closed⟩) others

theorem divides_pathParts (text : List Char) : Divides text (pathParts text) := by
  induction text using pathParts.induct with
  | case1 => exact .last whole_nil
  | case2 rest ih => exact .part closed_nil ih
  | case3 first rest noPair part parts found ih =>
      have apart : ¬ separator <+: first :: rest := by
        rintro ⟨behind, same⟩
        obtain ⟨isColon, shape⟩ := List.cons.inj same
        exact noPair behind isColon.symm shape.symm
      rw [found] at ih
      rw [pathParts_cons apart found]
      exact divides_cons apart ih
  | case4 first rest noPair found ih =>
      rw [found] at ih
      cases ih

theorem pathParts_eq_iff {text : List Char} {parts : List (List Char)} :
    pathParts text = parts ↔ Divides text parts := by
  constructor
  · intro same
    rw [← same]
    exact divides_pathParts text
  · intro divided
    induction divided with
    | last whole => exact pathParts_whole whole
    | part closed _ ih => rw [pathParts_closed closed, ih]

/-! What the two checks ask. -/

def Http (url : String) : Prop := "http://".toList <+: url.toList ∨ "https://".toList <+: url.toList

theorem isHttp_iff {url : String} : isHttp url = true ↔ Http url := by
  rw [isHttp, Bool.or_eq_true, List.isPrefixOf_iff_prefix, List.isPrefixOf_iff_prefix, Http]

/-- Where requests go is not given, or it is an address of the web. -/
def Reachable (config : ClientConfig) : Prop := ∀ url, config.url = some url → Http url

theorem checkUrl_eq_ok {config : ClientConfig} : checkUrl config.url = .ok () ↔ config.Reachable := by
  unfold checkUrl Reachable
  cases config.url with
  | none => simp
  | some url => simp [← isHttp_iff]

theorem checkUrl_eq_error {config : ClientConfig} {fault : ConfigFault} :
    checkUrl config.url = .error fault ↔
      ∃ url, config.url = some url ∧ ¬ Http url ∧ fault = .notHttp url := by
  unfold checkUrl
  cases config.url with
  | none => simp
  | some url =>
      by_cases http : Http url
      · simp [isHttp_iff.2 http, http]
      · simp [isHttp_iff.not.2 http, http, eq_comm]

/-- A coin type as a package, a module of it and a name there. -/
structure CoinPath (coinType package module name : String) : Prop where
  joined : coinType = package ++ "::" ++ module ++ "::" ++ name
  isAddress : ∃ address : Address, Identifier.ofHex package = .ok address
  hasModule : module ≠ ""
  moduleWhole : ¬ "::".toList <:+: module.toList
  moduleEnds : ¬ ":".toList <:+ module.toList
  hasName : name ≠ ""
  nameWhole : ¬ "::".toList <:+: name.toList

theorem CoinPath.divides {coinType package module name : String}
    (path : CoinPath coinType package module name) :
    Divides coinType.toList [package.toList, module.toList, name.toList] := by
  obtain ⟨address, read⟩ := path.isAddress
  have closed := closed_of_no_colon (Identifier.no_colon_of_ofHex read)
  refine divides_three.2 ⟨closed, closed_iff.2 ⟨path.moduleWhole, path.moduleEnds⟩, path.nameWhole, ?_⟩
  rw [path.joined]
  simp [separator]

theorem coinPath_of_divides {coinType : String} {package module name : List Char}
    (divided : Divides coinType.toList [package, module, name]) (hasModule : module ≠ [])
    (hasName : name ≠ []) {address : Address}
    (read : Identifier.ofHex (String.ofList package) = .ok address) :
    CoinPath coinType (String.ofList package) (String.ofList module) (String.ofList name) := by
  obtain ⟨_, closed, whole, same⟩ := divides_three.1 divided
  obtain ⟨moduleWhole, moduleEnds⟩ := closed_iff.1 closed
  refine ⟨?_, ⟨address, read⟩, ?_, ?_, ?_, ?_, ?_⟩
  · rw [← String.toList_inj, same]
    simp [separator]
  · simpa [← String.toList_inj] using hasModule
  · rw [String.toList_ofList (l := module)]
    exact moduleWhole
  · rw [String.toList_ofList (l := module)]
    exact moduleEnds
  · simpa [← String.toList_inj] using hasName
  · rw [String.toList_ofList (l := name)]
    exact whole

theorem CoinPath.unique {coinType package module name otherPackage otherModule otherName : String}
    (path : CoinPath coinType package module name)
    (other : CoinPath coinType otherPackage otherModule otherName) :
    package = otherPackage ∧ module = otherModule ∧ name = otherName := by
  obtain ⟨closed, moduleClosed, _, shape⟩ := divides_three.1 path.divides
  obtain ⟨otherClosed, otherModuleClosed, _, otherShape⟩ := divides_three.1 other.divides
  obtain ⟨samePackage, behind⟩ := closed.cut_unique otherClosed (shape.symm.trans otherShape)
  obtain ⟨sameModule, sameName⟩ := moduleClosed.cut_unique otherModuleClosed behind
  exact ⟨String.toList_inj.1 samePackage, String.toList_inj.1 sameModule, String.toList_inj.1 sameName⟩

/-- Settings are refused for an address that is not one of the web, then for a coin type that has not
three parts, then for an empty one, and then for the package. -/
inductive FirstFault (config : ClientConfig) : ConfigFault → Prop
  | address {url : String} (given : config.url = some url) (notHttp : ¬ Http url) :
      FirstFault config (.notHttp url)
  | parts {parts : List (List Char)} (reachable : config.Reachable)
      (divided : Divides config.coinType.toList parts) (notThree : parts.length ≠ 3) :
      FirstFault config (.notAPath config.coinType)
  | empty {package module name : List Char} (reachable : config.Reachable)
      (divided : Divides config.coinType.toList [package, module, name])
      (isEmpty : module = [] ∨ name = []) : FirstFault config (.emptyPart config.coinType)
  | package {package module name : List Char} {fault : Identifier.Fault}
      (reachable : config.Reachable)
      (divided : Divides config.coinType.toList [package, module, name])
      (hasModule : module ≠ []) (hasName : name ≠ [])
      (refused : (Identifier.ofHex (String.ofList package) : Except Identifier.Fault Address) =
        .error fault) : FirstFault config (.package fault)

variable {config : ClientConfig}

theorem checkCoinType_eq_ok {coinType : String} :
    checkCoinType coinType = .ok () ↔ ∃ package module name, CoinPath coinType package module name := by
  constructor
  · intro accepted
    unfold checkCoinType at accepted
    split at accepted
    · rename_i package module name found
      split at accepted
      · simp at accepted
      · rename_i filled
        simp only [Bool.or_eq_true, List.isEmpty_iff, not_or] at filled
        split at accepted
        · rename_i address read
          exact ⟨_, _, _, coinPath_of_divides (pathParts_eq_iff.1 found) filled.1 filled.2 read⟩
        · simp at accepted
    · simp at accepted
  · rintro ⟨package, module, name, path⟩
    obtain ⟨address, read⟩ := path.isAddress
    have hasModule := path.hasModule
    have hasName := path.hasName
    simp [checkCoinType, pathParts_eq_iff.2 path.divides, read, hasModule, hasName]

theorem checkCoinType_eq_error (reachable : config.Reachable) {fault : ConfigFault} :
    checkCoinType config.coinType = .error fault ↔ FirstFault config fault := by
  constructor
  · intro refused
    unfold checkCoinType at refused
    split at refused
    · rename_i package module name found
      have divided := pathParts_eq_iff.1 found
      split at refused
      · rename_i isEmpty
        rw [← Except.error.inj refused]
        exact .empty reachable divided (by simpa using isEmpty)
      · rename_i filled
        simp only [Bool.or_eq_true, List.isEmpty_iff, not_or] at filled
        split at refused
        · simp at refused
        · rename_i cause noAddress
          rw [← Except.error.inj refused]
          exact .package reachable divided filled.1 filled.2 noAddress
    · rename_i notThree
      rw [← Except.error.inj refused]
      refine .parts reachable (divides_pathParts _) fun three => ?_
      obtain ⟨package, module, name, shape⟩ := List.length_eq_three.1 three
      exact notThree package module name shape
  · intro first
    cases first with
    | address given notHttp => exact absurd (reachable _ given) notHttp
    | parts _ divided notThree =>
        unfold checkCoinType
        split
        · rename_i found
          rw [← pathParts_eq_iff.2 divided, found] at notThree
          exact absurd rfl notThree
        · rfl
    | empty _ divided isEmpty =>
        simp [checkCoinType, pathParts_eq_iff.2 divided, isEmpty]
    | package _ divided hasModule hasName noAddress =>
        simp [checkCoinType, pathParts_eq_iff.2 divided, hasModule, hasName, noAddress]

theorem check_eq_ok : config.check = .ok () ↔
    config.Reachable ∧ ∃ package module name, CoinPath config.coinType package module name := by
  rw [check, bind_eq_ok, checkCoinType_eq_ok]
  simp only [Subsingleton.elim (_ : Unit) (), exists_const, checkUrl_eq_ok]

theorem check_eq_error {fault : ConfigFault} :
    config.check = .error fault ↔ FirstFault config fault := by
  cases reached : checkUrl config.url with
  | ok _ =>
      rw [check, reached, ok_bind]
      exact checkCoinType_eq_error (checkUrl_eq_ok.1 reached)
  | error cause =>
      rw [check, reached, error_bind, Except.error.injEq]
      obtain ⟨url, given, notHttp, same⟩ := checkUrl_eq_error.1 reached
      have notReachable : ¬ config.Reachable := fun reachable => notHttp (reachable url given)
      rw [same]
      constructor
      · intro isFault
        rw [← isFault]
        exact .address given notHttp
      · intro first
        cases first with
        | address givenToo _ => rw [Option.some.inj (given.symm.trans givenToo)]
        | parts reachable | empty reachable | package reachable => exact absurd reachable notReachable

/-- Settings stand up to their checks where requests go to the web, or nowhere in particular, and the
coin type is a path, which it is in one way only. Otherwise they are refused for their first fault. -/
theorem checks_exactly (config : ClientConfig) :
    (config.check = .ok () ↔
      (∀ url, config.url = some url →
        "http://".toList <+: url.toList ∨ "https://".toList <+: url.toList) ∧
      ∃ package module name, CoinPath config.coinType package module name) ∧
    (∀ package module name otherPackage otherModule otherName,
      CoinPath config.coinType package module name →
        CoinPath config.coinType otherPackage otherModule otherName →
          package = otherPackage ∧ module = otherModule ∧ name = otherName) ∧
    ∀ fault, config.check = .error fault ↔ FirstFault config fault :=
  ⟨check_eq_ok, fun _ _ _ _ _ _ path other => path.unique other, fun _ => check_eq_error⟩

def spareColons : ClientConfig := { standard with coinType := ":::a::b:" }

def twoFaults (url : Option String) : ClientConfig := { standard with url, coinType := "zz::::SUI" }

theorem spare_colons_belong_to_parts :
    spareColons.check = .ok () ∧
      (∀ package module name, CoinPath spareColons.coinType package module name →
        package = "" ∧ module = ":a" ∧ name = "b:") ∧
      (twoFaults (some "ftp://node")).check = .error (.notHttp "ftp://node") ∧
      (twoFaults none).check = .error (.emptyPart "zz::::SUI") := by
  have path : CoinPath ":::a::b:" "" ":a" "b:" :=
    ⟨by decide, ⟨.zero addressWidth, rfl⟩, by decide, by decide, by decide, by decide, by decide⟩
  have divided : Divides "zz::::SUI".toList ["zz".toList, [], "SUI".toList] :=
    pathParts_eq_iff.1 rfl
  obtain ⟨accepted, unique, _⟩ := checks_exactly spareColons
  refine ⟨accepted.2 ⟨fun _ none => by simp [spareColons, standard] at none, _, _, _, path⟩, ?_, ?_, ?_⟩
  · intro package module name other
    exact unique _ _ _ _ _ _ other path
  · exact ((checks_exactly _).2.2 _).2 (.address rfl (by simp [Http]))
  · exact ((checks_exactly (twoFaults none)).2.2 _).2
      (.empty (fun _ none => by simp [twoFaults] at none) divided (Or.inl rfl))

end ClientConfig

end LedgerWire
