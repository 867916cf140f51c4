import CssMedia.Node
import CssMedia.Proofs.Json.Text
import CssMedia.Proofs.Shape

/-!
# Trees from their JSON

A node with finite numbers is told by the text of its JSON. The fields tell an operand that is a
feature from one that is a condition, and what is missing from a tree leaves a place that no other
field takes.
-/

namespace CssMedia

open Json (field?)

/-! ## Words -/

theorem NumberFlag.name_inj {f g : NumberFlag} : f.name = g.name ↔ f = g := by
  cases f <;> cases g <;> decide

theorem Extremum.name_inj {x y : Extremum} : x.name = y.name ↔ x = y := by
  cases x <;> cases y <;> decide

theorem Comparison.text_inj {c d : Comparison} : c.text = d.text ↔ c = d := by
  cases c <;> cases d <;> decide

theorem Operator.name_inj {o p : Operator} : o.name = p.name ↔ o = p := by
  cases o <;> cases p <;> decide

theorem Modifier.name_inj {m n : Modifier} : m.name = n.name ↔ m = n := by
  cases m <;> cases n <;> decide

theorem MediaType.name_inj {t u : MediaType} : t.name = u.name ↔ t = u := by
  cases t <;> cases u <;> decide

/-! ## Fields -/

theorem Json.notMem_keys_field? {key other : String} (h : key ≠ other) (x : Option Json) :
    key ∉ (field? other x).map Prod.fst := by
  cases x <;> simp [field?, h]

theorem Json.field?_append_inj {key : String} {x y : Option Json}
    {fields others : List (String × Json)} (hfields : key ∉ fields.map Prod.fst)
    (hothers : key ∉ others.map Prod.fst) :
    field? key x ++ fields = field? key y ++ others ↔ x = y ∧ fields = others := by
  cases x with
  | none =>
    cases y with
    | none => simp [field?]
    | some y =>
      refine iff_of_false ?_ nofun
      rintro rfl
      simp [field?] at hfields
  | some x =>
    cases y with
    | none =>
      refine iff_of_false ?_ nofun
      rintro rfl
      simp [field?] at hothers
    | some y => simp [field?]

theorem Json.field?_inj {key : String} {x y : Option Json} :
    field? key x = field? key y ↔ x = y := by
  have hnil : key ∉ ([] : List (String × Json)).map Prod.fst := List.not_mem_nil
  simpa using field?_append_inj (x := x) (y := y) hnil hnil

/-! ## Values and features -/

theorem Value.toJson_inj {v w : Value} : v.toJson = w.toJson ↔ v = w := by
  cases v <;> cases w <;> simp [Value.toJson, NumberFlag.name_inj]

theorem Bound.toJson_inj {b c : Bound} : b.toJson = c.toJson ↔ b = c := by
  obtain ⟨v, comparison⟩ := b
  obtain ⟨w, other⟩ := c
  simp [Bound.toJson, Value.toJson_inj, Comparison.text_inj]

theorem Feature.toJson_inj {f g : Feature} : f.toJson = g.toJson ↔ f = g := by
  cases f <;> cases g
  case plain.plain name x v other y w =>
    have hextremum : x.map (.string ·.name : Extremum → Json) = y.map (.string ·.name) ↔ x = y :=
      Option.map_inj_right fun _ _ h => Extremum.name_inj.mp (Json.string.inj h)
    simp [toJson, Json.field?_inj, hextremum, Value.toJson_inj]
  case range.range name left right other first second =>
    have hbound : ∀ b c : Option Bound, b.map (·.toJson) = c.map (·.toJson) ↔ b = c :=
      fun b c => Option.map_inj_right fun _ _ => Bound.toJson_inj.mp
    have hright := Json.notMem_keys_field? (show "left" ≠ "right" by decide)
    simp [toJson, Json.field?_append_inj (hright _) (hright _), Json.field?_inj, hbound]
  all_goals simp [toJson]

/-! ## Conditions -/

theorem Json.condition_inj {o p : Option Operator} {items others : List Json} :
    Json.condition o items = .condition p others ↔ o = p ∧ items = others := by
  have hoperator : o.map (.string ·.name : Operator → Json) = p.map (.string ·.name) ↔ o = p :=
    Option.map_inj_right fun _ _ h => Operator.name_inj.mp (Json.string.inj h)
  simp [condition, field?_inj, hoperator, and_comm]

theorem Feature.toJson_ne_condition (f : Feature) (operator : Option Operator) (items : List Json) :
    f.toJson ≠ .condition operator items := by
  cases f <;> cases operator <;> simp [Feature.toJson, Json.condition, field?]

mutual

theorem Operand.toJson_injective : ∀ {x y : Operand}, x.toJson = y.toJson → x = y
  | .feature _, .feature _, h => congrArg _ (Feature.toJson_inj.mp h)
  | .feature f, .group _ _, h => (f.toJson_ne_condition _ _ h).elim
  | .group _ _, .feature g, h => (g.toJson_ne_condition _ _ h.symm).elim
  | .group _ _, .group _ _, h => by
    obtain ⟨hoperator, hoperands⟩ := Json.condition_inj.mp h
    exact congrArg₂ group hoperator (Operand.allToJson_injective hoperands)

theorem Operand.allToJson_injective : ∀ {xs ys : List Operand},
    Operand.allToJson xs = Operand.allToJson ys → xs = ys
  | [], [], _ => rfl
  | _ :: _, _ :: _, h => by
    obtain ⟨hoperand, hoperands⟩ := List.cons.inj h
    exact congrArg₂ List.cons (Operand.toJson_injective hoperand)
      (Operand.allToJson_injective hoperands)

end

theorem Condition.toJson_injective {c d : Condition} (h : c.toJson = d.toJson) : c = d := by
  obtain ⟨hoperator, hoperands⟩ := Json.condition_inj.mp h
  exact congrArg₂ mk hoperator (Operand.allToJson_injective hoperands)

/-! ## Queries -/

theorem Query.toJson_injective {q r : Query} (h : q.toJson = r.toJson) : q = r := by
  have hrest : ∀ q : Query, "prefix" ∉ ([("type", Json.string q.mediaType.name)] ++
      field? "condition" (q.condition.map (·.toJson))).map Prod.fst := by
    intro q
    simpa using Json.notMem_keys_field? (show "prefix" ≠ "condition" by decide) _
  unfold toJson at h
  rw [Json.object.injEq, List.append_assoc, List.append_assoc,
    Json.field?_append_inj (hrest q) (hrest r)] at h
  obtain ⟨hmodifier, h⟩ := h
  obtain ⟨htype, hcondition⟩ := List.cons.inj h
  have hmodifier : q.modifier = r.modifier :=
    (Option.map_inj_right fun _ _ h => Modifier.name_inj.mp (Json.string.inj h)).mp hmodifier
  have htype : q.mediaType = r.mediaType :=
    MediaType.name_inj.mp (Json.string.inj (Prod.mk.inj htype).2)
  have hcondition : q.condition = r.condition :=
    (Option.map_inj_right fun _ _ => Condition.toJson_injective).mp (Json.field?_inj.mp hcondition)
  exact (mk.injEq ..).mpr ⟨hmodifier, htype, hcondition⟩

theorem Query.toJson_ne_null (q : Query) : q.toJson ≠ .null := nofun

theorem QueryList.toJson_injective {l m : QueryList} (h : l.toJson = m.toJson) : l = m := by
  have hmember : ∀ x y : Option Query,
      x.elim Json.null (·.toJson) = y.elim .null (·.toJson) → x = y := by
    intro x y hxy
    cases x with
    | none =>
      cases y with
      | none => rfl
      | some r => exact (r.toJson_ne_null hxy.symm).elim
    | some q =>
      cases y with
      | none => exact (q.toJson_ne_null hxy).elim
      | some r => exact congrArg some (Query.toJson_injective hxy)
  exact congrArg mk ((List.map_inj_right hmember).mp (Json.array.inj h))

/-! ## Nodes -/

/-- What is read as the tree whose JSON starts with this field. -/
def Json.entryPoint? : Json → Option EntryPoint
  | .array _ => some .list
  | .object (("context", _) :: _) => some .feature
  | .object (("prefix", _) :: _) => some .query
  | .object (("type", .string name) :: _) => (MediaType.ofName? name).map fun _ => .query
  | .object _ => some .condition
  | _ => none

theorem Node.entryPoint?_toJson (n : Node) : n.toJson.entryPoint? = n.entryPoint? := by
  cases n with
  | list l => rfl
  | query q =>
    obtain ⟨modifier, mediaType, condition⟩ := q
    cases modifier <;> cases mediaType <;> rfl
  | condition c =>
    obtain ⟨operator, operands⟩ := c
    cases operator <;> rfl
  | feature f => cases f <;> rfl
  | value v => cases v <;> rfl

theorem Node.toJson_injective {n m : Node} (h : n.toJson = m.toJson) : n = m := by
  have hentry : n.entryPoint? = m.entryPoint? := by
    rw [← entryPoint?_toJson, h, entryPoint?_toJson]
  cases n with
  | list l =>
    cases m with
    | list m => exact congrArg list (QueryList.toJson_injective h)
    | _ => cases hentry
  | query q =>
    cases m with
    | query r => exact congrArg query (Query.toJson_injective h)
    | _ => cases hentry
  | condition c =>
    cases m with
    | condition d => exact congrArg condition (Condition.toJson_injective h)
    | _ => cases hentry
  | feature f =>
    cases m with
    | feature g => exact congrArg feature (Feature.toJson_inj.mp h)
    | _ => cases hentry
  | value v =>
    cases m with
    | value w => exact congrArg value (Value.toJson_inj.mp h)
    | _ => cases hentry

/-! ## Numbers -/

def Value.numbers : Value → List Binary64
  | .number v _ | .dimension v _ _ => [v]
  | .ratio n d => [n, d]
  | .ident _ => []

def Feature.numbers : Feature → List Binary64
  | .boolean _ => []
  | .plain _ _ v => v.numbers
  | .range _ left right => left.elim [] (·.value.numbers) ++ right.elim [] (·.value.numbers)

def Condition.numbers (c : Condition) : List Binary64 := c.features.flatMap Feature.numbers

def Query.numbers (q : Query) : List Binary64 := q.condition.elim [] Condition.numbers

def QueryList.numbers (l : QueryList) : List Binary64 := l.valid.flatMap Query.numbers

/-- The numbers in the values of a tree. -/
def Node.numbers : Node → List Binary64
  | .list l => l.numbers
  | .query q => q.numbers
  | .condition c => c.numbers
  | .feature f => f.numbers
  | .value v => v.numbers

theorem Value.numbers_toJson (v : Value) : v.toJson.numbers = v.numbers := by
  cases v <;> simp [toJson, numbers]

theorem Bound.numbers_toJson (b : Bound) : b.toJson.numbers = b.value.numbers := by
  simp [toJson, Value.numbers_toJson]

theorem Feature.numbers_toJson (f : Feature) : f.toJson.numbers = f.numbers := by
  cases f with
  | boolean name => rfl
  | plain name extremum v => cases extremum <;> simp [toJson, numbers, field?, Value.numbers_toJson]
  | range name left right =>
    cases left <;> cases right <;> simp [toJson, numbers, field?, Bound.numbers_toJson]

theorem Json.numbers_condition (operator : Option Operator) (items : List Json) :
    (condition operator items).numbers = itemNumbers items := by
  cases operator <;> simp [condition, field?]

mutual

theorem Operand.numbers_toJson : ∀ x : Operand,
    x.toJson.numbers = x.features.flatMap Feature.numbers
  | .feature f => by
    rw [features_feature, List.flatMap_singleton]
    exact f.numbers_toJson
  | .group operator operands => by
    rw [toJson, Json.numbers_condition, Operand.numbers_allToJson, features_group]

theorem Operand.numbers_allToJson : ∀ xs : List Operand,
    Json.itemNumbers (Operand.allToJson xs) = (Operand.featuresAll xs).flatMap Feature.numbers
  | [] => rfl
  | x :: xs => by
    rw [allToJson, Json.itemNumbers_cons, featuresAll_cons, List.flatMap_append, x.numbers_toJson,
      Operand.numbers_allToJson xs]

end

theorem Condition.numbers_toJson (c : Condition) : c.toJson.numbers = c.numbers := by
  rw [toJson, Json.numbers_condition, Operand.numbers_allToJson]
  rfl

theorem Query.numbers_toJson (q : Query) : q.toJson.numbers = q.numbers := by
  obtain ⟨modifier, mediaType, condition⟩ := q
  cases modifier <;> cases condition <;> simp [toJson, numbers, field?, Condition.numbers_toJson]

theorem QueryList.numbers_toJson (l : QueryList) : l.toJson.numbers = l.numbers := by
  obtain ⟨members⟩ := l
  rw [toJson, Json.numbers_array, numbers, valid]
  induction members with
  | nil => rfl
  | cons member members ih =>
    rw [List.map_cons, Json.itemNumbers_cons, ih]
    cases member with
    | none => rfl
    | some q => exact congrArg (· ++ _) q.numbers_toJson

theorem Node.numbers_toJson (n : Node) : n.toJson.numbers = n.numbers := by
  cases n with
  | list l => exact l.numbers_toJson
  | query q => exact q.numbers_toJson
  | condition c => exact c.numbers_toJson
  | feature f => exact f.numbers_toJson
  | value v => exact v.numbers_toJson

theorem Node.jsonText_eq_iff {n m : Node} (hn : ∀ v ∈ n.numbers, v.IsFinite)
    (hm : ∀ v ∈ m.numbers, v.IsFinite) : n.toJson.text = m.toJson.text ↔ n = m := by
  constructor
  · intro h
    rw [← numbers_toJson] at hn hm
    exact toJson_injective (Json.text_inj hn hm h)
  · rintro rfl
    rfl

/-- A comparison before the name of a feature is told from one behind it, also deep inside. -/
theorem Node.jsonText_ne_of_sides :
    let zero : Bound := ⟨.number (.finite false ⟨0, by decide⟩) .integer, .less⟩
    let nested (f : Feature) : Node := .condition ⟨some .not, [.group none [.feature f]]⟩
    (nested (.range "width" (some zero) none)).toJson.text ≠
      (nested (.range "width" none (some zero))).toJson.text := by
  intro zero nested h
  have hsame := (jsonText_eq_iff (List.forall_mem_singleton.mpr trivial)
    (List.forall_mem_singleton.mpr trivial)).mp h
  simp [nested] at hsame

end CssMedia
