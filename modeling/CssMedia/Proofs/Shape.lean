import CssMedia.Query

/-!
# The shape of trees

How many operands the runs have, how deep they are nested, and the conditions and features
between their parentheses. Nothing here looks inside a feature.
-/

namespace CssMedia

/-- How many operands the runs of an operator have in a text. -/
def Operator.Takes (operator : Option Operator) (n : Nat) : Prop :=
  match operator with
  | some .and | some .or => 2 ≤ n
  | some .not | none => n = 1

instance (operator : Option Operator) (n : Nat) : Decidable (Operator.Takes operator n) := by
  unfold Operator.Takes
  split <;> infer_instance

theorem Operator.Takes.pos {operator : Option Operator} {n : Nat} (h : Takes operator n) :
    0 < n := by
  rcases operator with _ | _ | _ | _ <;> simp only [Takes] at h <;> omega

namespace Operand

mutual

/-- Every run in it has as many operands as its operator takes. -/
def IsShaped : Operand → Prop
  | .feature _ => True
  | .group operator operands => Operator.Takes operator operands.length ∧ AllShaped operands

def AllShaped : List Operand → Prop
  | [] => True
  | operand :: rest => operand.IsShaped ∧ AllShaped rest

end

@[simp] theorem allShaped_nil : AllShaped [] := trivial

@[simp] theorem allShaped_cons {operand : Operand} {rest : List Operand} :
    AllShaped (operand :: rest) ↔ operand.IsShaped ∧ AllShaped rest := .rfl

@[simp] theorem isShaped_feature {f : Feature} : (Operand.feature f).IsShaped := trivial

theorem isShaped_group {operator : Option Operator} {operands : List Operand} :
    (Operand.group operator operands).IsShaped ↔
      Operator.Takes operator operands.length ∧ AllShaped operands := .rfl

@[simp] theorem allShaped_append {as bs : List Operand} :
    AllShaped (as ++ bs) ↔ AllShaped as ∧ AllShaped bs := by
  induction as with
  | nil => simp
  | cons a as ih => simp [ih, and_assoc]

/-! ## Depth -/

mutual

/-- The longest chain of nested runs. -/
def depth : Operand → Nat
  | .feature _ => 0
  | .group _ operands => maxDepth operands + 1

def maxDepth : List Operand → Nat
  | [] => 0
  | operand :: rest => max operand.depth (maxDepth rest)

end

@[simp] theorem maxDepth_nil : maxDepth [] = 0 := rfl

@[simp] theorem maxDepth_cons (operand : Operand) (rest : List Operand) :
    maxDepth (operand :: rest) = max operand.depth (maxDepth rest) := rfl

@[simp] theorem depth_feature (f : Feature) : (Operand.feature f).depth = 0 := rfl

@[simp] theorem depth_group (operator : Option Operator) (operands : List Operand) :
    (Operand.group operator operands).depth = maxDepth operands + 1 := rfl

@[simp] theorem maxDepth_append (as bs : List Operand) :
    maxDepth (as ++ bs) = max (maxDepth as) (maxDepth bs) := by
  induction as with
  | nil => simp
  | cons a as ih => simp [ih, Nat.max_assoc]

/-! ## Features -/

mutual

def features : Operand → List Feature
  | .feature f => [f]
  | .group _ operands => featuresAll operands

def featuresAll : List Operand → List Feature
  | [] => []
  | operand :: rest => operand.features ++ featuresAll rest

end

@[simp] theorem featuresAll_nil : featuresAll [] = [] := rfl

@[simp] theorem featuresAll_cons (operand : Operand) (rest : List Operand) :
    featuresAll (operand :: rest) = operand.features ++ featuresAll rest := rfl

@[simp] theorem features_feature (f : Feature) : (Operand.feature f).features = [f] := rfl

@[simp] theorem features_group (operator : Option Operator) (operands : List Operand) :
    (Operand.group operator operands).features = featuresAll operands := rfl

@[simp] theorem featuresAll_append (as bs : List Operand) :
    featuresAll (as ++ bs) = featuresAll as ++ featuresAll bs := by
  induction as with
  | nil => rfl
  | cons a as ih => simp [ih]

/-! ## Conditions -/

mutual

/-- The conditions in it from left to right, each before those inside of it. -/
def conditions : Operand → List Condition
  | .feature _ => []
  | .group operator operands => ⟨operator, operands⟩ :: conditionsAll operands

def conditionsAll : List Operand → List Condition
  | [] => []
  | operand :: rest => operand.conditions ++ conditionsAll rest

end

@[simp] theorem conditionsAll_nil : conditionsAll [] = [] := rfl

@[simp] theorem conditionsAll_cons (operand : Operand) (rest : List Operand) :
    conditionsAll (operand :: rest) = operand.conditions ++ conditionsAll rest := rfl

@[simp] theorem conditions_feature (f : Feature) : (Operand.feature f).conditions = [] := rfl

@[simp] theorem conditions_group (operator : Option Operator) (operands : List Operand) :
    (Operand.group operator operands).conditions = ⟨operator, operands⟩ :: conditionsAll operands :=
  rfl

@[simp] theorem conditionsAll_append (as bs : List Operand) :
    conditionsAll (as ++ bs) = conditionsAll as ++ conditionsAll bs := by
  induction as with
  | nil => rfl
  | cons a as ih => simp [ih]

end Operand

namespace Condition

def IsShaped (c : Condition) : Prop :=
  Operator.Takes c.operator c.operands.length ∧ Operand.AllShaped c.operands

/-- The longest chain of nested conditions, the condition itself included. -/
def depth (c : Condition) : Nat := Operand.maxDepth c.operands + 1

def features (c : Condition) : List Feature := Operand.featuresAll c.operands

/-- The condition itself and those below it. -/
def conditions (c : Condition) : List Condition := c :: Operand.conditionsAll c.operands

end Condition

def Query.depth (q : Query) : Nat := q.condition.elim 0 Condition.depth

/-- The depth of the deepest member. -/
def QueryList.depth (l : QueryList) : Nat := l.valid.foldr (fun q d => max q.depth d) 0

theorem QueryList.depth_le_iff {l : QueryList} {n : Nat} :
    l.depth ≤ n ↔ ∀ q, some q ∈ l.members → q.depth ≤ n := by
  have hmem : ∀ q, q ∈ l.valid ↔ some q ∈ l.members := by simp [valid]
  unfold depth
  simp only [← hmem]
  generalize l.valid = qs
  induction qs with
  | nil => simp
  | cons q qs ih =>
    rw [List.foldr_cons, Nat.max_le, List.forall_mem_cons]
    exact and_congr_right fun _ => ih

end CssMedia
