import FilterQuery.Json.Decode
import FilterQuery.Proofs.Json

/-! Decoders that give back what was encoded, for the values that records are made of. -/

namespace FilterQuery.Json

variable {α : Type} {decode : Json → Option α} {encode : α → Json}

def Undoes (decode : Json → Option α) (encode : α → Json) : Prop :=
  ∀ a, decode (encode a) = some a

/-! ## Fields of a record -/

section
variable {fields : Table Json} {name : String} {v : Json} {default a : α}

theorem required_eq_some_iff :
    required decode fields name = some a ↔ ∃ v, fields.get? name = some v ∧ decode v = some a :=
  Option.bind_eq_some_iff

theorem required_of_get? (h : fields.get? name = some v) :
    required decode fields name = decode v := by
  rw [required, h]
  rfl

theorem defaulted_of_get? (h : fields.get? name = some v) :
    defaulted default decode fields name = decode v := by
  rw [defaulted, h]
  rfl

theorem Undoes.required (h : Undoes decode encode) (ha : fields.get? name = some (encode a)) :
    required decode fields name = some a := (required_of_get? ha).trans (h a)

theorem Undoes.defaulted (h : Undoes decode encode) (ha : fields.get? name = some (encode a)) :
    defaulted default decode fields name = some a := (defaulted_of_get? ha).trans (h a)

theorem defaulted_eq_some (h : defaulted default decode fields name = some a) :
    a = default ∨ ∃ v, decode v = some a := by
  unfold defaulted at h
  cases hv : fields.get? name with
  | none =>
    rw [hv] at h
    exact .inl (Option.some.inj h).symm
  | some v =>
    rw [hv] at h
    exact .inr ⟨v, h⟩

end

/-! ## Values -/

theorem undoes_string : Undoes toString? .string := fun _ => rfl

theorem undoes_bool : Undoes toBool? .bool := fun _ => rfl

theorem undoes_nat64 : Undoes toUInt64? ofNat64 := toUInt64?_ofNat64

theorem undoes_array : Undoes toArray? .array := fun _ => rfl

theorem undoes_nullable_string : Undoes (nullable toString?) ofString? := by
  intro s
  cases s <;> rfl

theorem toInt64?_of_toInt? {n : Number} {v : Int} (hn : n.toInt? = some v) (hv : v < 2 ^ 63) :
    toInt64? (.number n) = some v := by
  simp only [toInt64?, hn, Option.filter_some, decide_eq_true hv, if_true]

theorem mapM_map_eq_some {β : Type} {f : β → Option α} {g : α → β} (h : ∀ a, f (g a) = some a)
    (items : List α) : (items.map g).mapM f = some items := by
  induction items with
  | nil => rfl
  | cons item items ih =>
    rw [List.map_cons, List.mapM_cons, h, ih]
    rfl

theorem Undoes.listOf (h : Undoes decode encode) :
    Undoes (listOf? decode) fun items => .array (items.map encode) := mapM_map_eq_some h

theorem Undoes.tableOf (h : Undoes decode encode) : Undoes (tableOf? decode) (ofTable encode) := by
  intro t
  refine mapM_map_eq_some (fun (k, a) => ?_) t
  show (decode (encode a)).map (k, ·) = some (k, a)
  rw [h]
  rfl

end FilterQuery.Json
