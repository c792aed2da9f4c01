import ChainArchive.Proofs.Session.Composed

namespace ChainArchive

namespace Value

@[simp] theorem isNull_text (s : String) : (text s).isNull = false := rfl

@[simp] theorem isNull_int (n : Int) : (int n).isNull = false := rfl

@[simp] theorem isNull_texts (ss : List String) : (texts ss).isNull = false := rfl

end Value

structure Parameter where
  number : Nat
  isJson : Bool
  deriving DecidableEq, Repr

namespace Parameter

def plain (number : Nat) : Parameter := ⟨number, false⟩

def json (number : Nat) : Parameter := ⟨number, true⟩

/-- The parameters in a text, each a dollar sign with a numeral after it. -/
def all : List Char → List Parameter
  | [] => []
  | c :: cs =>
    let digits := cs.takeWhile Char.isDigit
    if c = '$' ∧ digits ≠ [] then
      ⟨Nat.ofDigitChars 10 digits 0,
        [':', ':', 'j', 's', 'o', 'n', 'b'].isPrefixOf (cs.drop digits.length)⟩ :: all cs
    else all cs

def highest (ps : List Parameter) : Nat := (ps.map (·.number)).foldl max 0

end Parameter

def Plan.parameters (p : Plan) : List Parameter := Parameter.all p.sql.toList

def updatePlans : List String := ["update_domain", "update_fungible"]

/-- The values are parameters of the standard statement with that name: one for each number up to
the highest, and absent only where an update has a JSON field. -/
def Suits (name : String) (args : List Value) : Prop :=
  ∃ p, Statement.find? Statement.standard name = some p ∧
    args.length = Parameter.highest p.parameters ∧ ∀ i v, args[i]? = some v → v.isNull = true →
      name ∈ updatePlans ∧ .json (i + 1) ∈ p.parameters

namespace Statement

/-- The standard statements by name, with their parameters in the order of their texts. -/
def shapes : List (String × List Parameter) :=
  [("insert_stat", [.plain 1, .plain 2]), ("read_stat", [.plain 1]),
    ("update_stat", [.plain 2, .plain 1]), ("latest_block_id", []), ("block_exists", [.plain 1]),
    ("set_block_irreversible", [.plain 1]),
    ("insert_domain", [.plain 1, .plain 2, .json 3, .json 4, .json 5]),
    ("update_domain", [.json 2, .json 3, .json 4, .plain 1]),
    ("insert_token", [.plain 1, .plain 2, .plain 3, .plain 4]),
    ("transfer_token", [.plain 2, .plain 1]), ("destroy_token", [.plain 2, .plain 1]),
    ("insert_group", [.plain 1, .plain 2, .json 3]), ("update_group", [.json 2, .plain 1]),
    ("insert_fungible", [.plain 1, .plain 2, .plain 3, .plain 4, .plain 5, .json 6, .json 7]),
    ("update_fungible", [.json 2, .json 3, .plain 1]),
    ("insert_meta", [.plain 1, .plain 2, .plain 3]),
    ("append_domain_meta", [.plain 1, .plain 2]), ("append_token_meta", [.plain 1, .plain 2]),
    ("append_group_meta", [.plain 1, .plain 2]), ("append_fungible_meta", [.plain 1, .plain 2])]

theorem map_parameters_standard :
    standard.map (fun p => (p.name, p.parameters)) = shapes := by
  simp only [standard, ofStats, ofBlocks, ofDomains, ofTokens, ofGroups, ofFungibles, ofMetas,
    List.cons_append, List.nil_append, List.map_cons, List.map_nil, Plan.parameters]
  -- A literal is a text made of its characters.
  repeat rw [String.toList_ofList]
  decide +kernel

theorem lookup_parameters (ps : List Plan) (name : String) :
    (ps.map fun p => (p.name, p.parameters)).lookup name =
      (find? ps name).map Plan.parameters := by
  induction ps with
  | nil => rfl
  | cons p ps ih =>
    rw [List.map_cons, List.lookup_cons, find?, List.find?_cons, ih]
    by_cases h : p.name = name
    · simp [h]
    · have hname : (name == p.name) = false := beq_eq_false_iff_ne.mpr fun e => h e.symm
      simp only [hname, beq_eq_false_iff_ne.mpr h, find?]

theorem exists_of_shape {name : String} {ps : List Parameter}
    (h : shapes.lookup name = some ps) :
    ∃ p, find? standard name = some p ∧ p.parameters = ps := by
  rw [← map_parameters_standard, lookup_parameters] at h
  exact Option.map_eq_some_iff.mp h

end Statement

namespace Suits

variable {name : String} {args : List Value} {ps : List Parameter} {n : Nat}

theorem of_present (hname : Statement.shapes.lookup name = some ps)
    (hlength : args.length = Parameter.highest ps) (hargs : ∀ v ∈ args, v.isNull = false) :
    Suits name args := by
  obtain ⟨p, hp, rfl⟩ := Statement.exists_of_shape hname
  refine ⟨p, hp, hlength, fun i v hv hnull => ?_⟩
  cases (hargs v (List.mem_of_getElem? hv)).symm.trans hnull

theorem of_update {key : Value} (hname : Statement.shapes.lookup name = some ps)
    (hupdate : name ∈ updatePlans) (hkey : key.isNull = false)
    (hlength : args.length = n) (hhighest : n + 1 = Parameter.highest ps)
    (hfields : ∀ i < n, .json (i + 2) ∈ ps) : Suits name (key :: args) := by
  obtain ⟨p, hp, rfl⟩ := Statement.exists_of_shape hname
  refine ⟨p, hp, by rw [List.length_cons, hlength, hhighest], fun i v hv hnull => ⟨hupdate, ?_⟩⟩
  cases i with
  | zero =>
    cases hv
    cases hkey.symm.trans hnull
  | succ i =>
    obtain ⟨hi, -⟩ := List.getElem?_eq_some_iff.mp hv
    exact hfields i (hlength ▸ Nat.lt_of_succ_lt_succ hi)

end Suits

theorem Reads.suits {name : String} {args : List Value} (h : Reads name args) :
    Suits name args := by
  cases h with
  | stat key => exact .of_present (by rfl) rfl (by simp)
  | latest => exact .of_present (by rfl) rfl (by simp)
  | block blockId => exact .of_present (by rfl) rfl (by simp)

end ChainArchive
