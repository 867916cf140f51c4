import CssMedia.Query

/-!
# Agreement of trees

Two trees agree if they differ in nothing but the sign of zeros. A tree with NaN in it
agrees with none.
-/

namespace CssMedia

def Value.agrees : Value → Value → Bool
  | .number v f, .number w g => v.equals w && f == g
  | .dimension v t f, .dimension w u g => v.equals w && t == u && f == g
  | .ratio n d, .ratio m e => n.equals m && d.equals e
  | .ident a, .ident b => a == b
  | _, _ => false

def Bound.agrees (a b : Bound) : Bool := a.value.agrees b.value && a.comparison == b.comparison

def optionAgrees {α : Type} (agrees : α → α → Bool) : Option α → Option α → Bool
  | none, none => true
  | some a, some b => agrees a b
  | _, _ => false

def Feature.agrees : Feature → Feature → Bool
  | .boolean a, .boolean b => a == b
  | .plain a e v, .plain b f w => a == b && e == f && v.agrees w
  | .range a l r, .range b m s =>
    a == b && optionAgrees Bound.agrees l m && optionAgrees Bound.agrees r s
  | _, _ => false

mutual

def Operand.agrees : Operand → Operand → Bool
  | .feature f, .feature g => f.agrees g
  | .group o as, .group p bs => o == p && Operand.allAgree as bs
  | _, _ => false

def Operand.allAgree : List Operand → List Operand → Bool
  | [], [] => true
  | a :: as, b :: bs => a.agrees b && Operand.allAgree as bs
  | _, _ => false

end

def Condition.agrees (c d : Condition) : Bool :=
  c.operator == d.operator && Operand.allAgree c.operands d.operands

def Query.agrees (q r : Query) : Bool :=
  q.modifier == r.modifier && q.mediaType == r.mediaType &&
    optionAgrees Condition.agrees q.condition r.condition

def QueryList.agrees (l m : QueryList) : Bool :=
  l.members.length == m.members.length &&
    (l.members.zip m.members).all fun (q, r) => optionAgrees Query.agrees q r

end CssMedia
