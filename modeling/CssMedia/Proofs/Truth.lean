import CssMedia.Query

/-!
# What queries match

A feature holds on a device, does not hold there, or nobody can tell. Conditions and
queries combine these three values the way Kleene's logic does.
-/

namespace CssMedia

inductive Truth where
  | no
  | unknown
  | yes
deriving DecidableEq, Repr

namespace Truth

def and : Truth → Truth → Truth
  | .no, _ | _, .no => .no
  | .yes, .yes => .yes
  | _, _ => .unknown

def or : Truth → Truth → Truth
  | .yes, _ | _, .yes => .yes
  | .no, .no => .no
  | _, _ => .unknown

def not : Truth → Truth
  | .no => .yes
  | .unknown => .unknown
  | .yes => .no

/-- The conjunction of all; that of nothing holds. -/
def all (ts : List Truth) : Truth := ts.foldr and .yes

/-- The disjunction of all; that of nothing does not hold. -/
def any (ts : List Truth) : Truth := ts.foldr or .no

/-- What a run of operands with these values says. -/
def combine : Option Operator → List Truth → Truth
  | none, ts | some .and, ts => all ts
  | some .or, ts => any ts
  | some .not, ts => (all ts).not

theorem and_assoc (a b c : Truth) : (a.and b).and c = a.and (b.and c) := by
  cases a <;> cases b <;> cases c <;> rfl

theorem or_assoc (a b c : Truth) : (a.or b).or c = a.or (b.or c) := by
  cases a <;> cases b <;> cases c <;> rfl

@[simp] theorem yes_and (a : Truth) : Truth.yes.and a = a := by cases a <;> rfl

@[simp] theorem and_yes (a : Truth) : a.and .yes = a := by cases a <;> rfl

@[simp] theorem no_or (a : Truth) : Truth.no.or a = a := by cases a <;> rfl

@[simp] theorem or_no (a : Truth) : a.or .no = a := by cases a <;> rfl

@[simp] theorem not_not (a : Truth) : a.not.not = a := by cases a <;> rfl

@[simp] theorem all_nil : all [] = .yes := rfl

@[simp] theorem all_cons (t : Truth) (ts : List Truth) : all (t :: ts) = t.and (all ts) := rfl

@[simp] theorem any_nil : any [] = .no := rfl

@[simp] theorem any_cons (t : Truth) (ts : List Truth) : any (t :: ts) = t.or (any ts) := rfl

theorem all_append (ts us : List Truth) : all (ts ++ us) = (all ts).and (all us) := by
  induction ts with
  | nil => simp
  | cons t ts ih => simp [ih, and_assoc]

theorem any_append (ts us : List Truth) : any (ts ++ us) = (any ts).or (any us) := by
  induction ts with
  | nil => simp
  | cons t ts ih => simp [ih, or_assoc]

end Truth

/-! ## Conditions -/

namespace Operand

mutual

/-- The value of an operand where each feature has the value that `v` gives it. -/
def truth (v : Feature → Truth) : Operand → Truth
  | .feature f => v f
  | .group operator operands => Truth.combine operator (truths v operands)

def truths (v : Feature → Truth) : List Operand → List Truth
  | [] => []
  | operand :: rest => operand.truth v :: truths v rest

end

theorem truths_append (v : Feature → Truth) (as bs : List Operand) :
    truths v (as ++ bs) = truths v as ++ truths v bs := by
  induction as with
  | nil => rfl
  | cons a as ih => simp [truths, ih]

end Operand

def Condition.truth (v : Feature → Truth) (c : Condition) : Truth :=
  Truth.combine c.operator (Operand.truths v c.operands)

/-! ## Queries -/

/-- Whether a device of the type that `device` names is of a media type. -/
def MediaType.covers (device : String) (type : MediaType) : Bool :=
  type == .all || type.name == device

namespace Query

/-- A query without a condition asks for its media type only. -/
def conditionTruth (v : Feature → Truth) (q : Query) : Truth :=
  q.condition.elim .yes (·.truth v)

/-- The media type and the condition hold; `not` negates both together, and `only` is no change. -/
def truth (v : Feature → Truth) (device : String) (q : Query) : Truth :=
  let holds := (if q.mediaType.covers device then q.conditionTruth v else .no)
  if q.modifier = some .not then holds.not else holds

end Query

end CssMedia
