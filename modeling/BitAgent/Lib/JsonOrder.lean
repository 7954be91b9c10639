/-
# Lib.JsonOrder — the order of members and the decoded value

When no two members of an object go to one field, their order does not matter to what is decoded. `structObjects` lists
the objects that are decoded into structs; `Reordered` is a document with the members of its objects in another order,
except inside a `json.RawMessage`; `decodeValue_reordered` is the result.
-/
import BitAgent.Lib.JsonType

namespace BitAgent.Lib

open List

/-! ## Objects that are decoded into structs -/

/-- An object decoded into a struct: the names of fields and members. -/
structure StructObject where
  fields : FieldNames
  names : List GoString

/-- The objects of a value that are decoded into structs. -/
def structObjects : GoType → Json → List StructObject
  | .pointer elem, v => structObjects elem v
  | .slice elem, v =>
    match v with
    | .array _ items => items.flatMap (structObjects elem)
    | _ => []
  | .map elem, v =>
    match v with
    | .object _ members => members.flatMap fun m => structObjects elem m.2
    | _ => []
  | .struct fields types, v =>
    match v with
    | .object _ members =>
      ⟨fields, members.map Prod.fst⟩ :: members.flatMap fun m =>
        match fields.lookup m.1 with
        | some i => structObjects (types i) m.2
        | none => []
    | _ => []
  | _, _ => []

theorem structObjects_struct (fields : FieldNames) (types : Fin fields.names.length → GoType)
    (text : GoString) (members : List (GoString × Json)) :
    structObjects (.struct fields types) (.object text members) = ⟨fields, members.map Prod.fst⟩ ::
        members.flatMap fun m =>
          match fields.lookup m.1 with
          | some i => structObjects (types i) m.2
          | none => [] := by
  rw [structObjects]

def StructObject.AssignedOnce (o : StructObject) : Prop := (o.names.filterMap o.fields.lookup).Nodup

/-- No two members have names that differ, but only in case. -/
def StructObject.CaseDistinct (o : StructObject) : Prop := o.names.Pairwise fun a b => a ≠ b → foldName a ≠ foldName b

instance (o : StructObject) : Decidable o.AssignedOnce := by
  unfold StructObject.AssignedOnce
  infer_instance

instance (o : StructObject) : Decidable o.CaseDistinct := by
  unfold StructObject.CaseDistinct
  infer_instance

theorem StructObject.assignedOnce_iff {o : StructObject} (hnodup : o.names.Nodup)
    (hknown : ∀ n ∈ o.names, (o.fields.lookup n).isSome) : o.AssignedOnce ↔ o.CaseDistinct := by
  have hplace : o.AssignedOnce ↔
      o.names.Pairwise fun a b => ∀ i, o.fields.lookup a = some i → o.fields.lookup b ≠ some i := by
    unfold AssignedOnce List.Nodup
    rw [pairwise_filterMap]
    refine List.Pairwise.iff fun a b => ⟨fun h i ha hb => h i ha i hb rfl, ?_⟩
    rintro h i ha j hb rfl
    exact h i ha hb
  rw [hplace]
  constructor
  · intro h
    refine h.imp_of_mem fun {a b} ha _ hab hne hfold => ?_
    obtain ⟨i, hi⟩ := Option.isSome_iff_exists.mp (hknown a ha)
    refine hab i hi (o.fields.lookup_eq_some_iff.mpr ?_)
    exact (o.fields.lookup_eq_some_iff.mp hi).trans hfold
  · intro h
    refine (h.and hnodup).imp fun {a b} hab i hi hj => ?_
    refine hab.1 hab.2 ?_
    exact (o.fields.lookup_eq_some_iff.mp hi).symm.trans (o.fields.lookup_eq_some_iff.mp hj)

/-! ## Reordered documents -/

/-- The members of one object in another order, with values that `R` relates. -/
def MembersReordered (R : GoString → Json → Json → Prop) (ms ms' : List (GoString × Json)) : Prop :=
  ∃ mid, List.Forall₂ (fun a b => a.1 = b.1 ∧ R a.1 a.2 b.2) ms mid ∧ mid.Perm ms'

/-- The members of every object may be in another order. -/
inductive Shuffled : Json → Json → Prop where
  | refl (v : Json) : Shuffled v v
  | array {text text' : GoString} {xs ys : List Json} (items : List.Forall₂ Shuffled xs ys) :
      Shuffled (.array text xs) (.array text' ys)
  | object {text text' : GoString} {ms mid ms' : List (GoString × Json)}
      (names : List.Forall₂ (fun a b => a.1 = b.1) ms mid)
      (values : List.Forall₂ Shuffled (ms.map Prod.snd) (mid.map Prod.snd))
      (perm : mid.Perm ms') : Shuffled (.object text ms) (.object text' ms')

/-- How the member of a struct may differ, given how the values of its fields may. -/
def MemberReordered (fields : FieldNames) (R : Fin fields.names.length → Json → Json → Prop)
    (name : GoString) (v v' : Json) : Prop :=
  match fields.lookup name with
  | some i => R i v v'
  | none => v = v'

/-- Members of objects may be in another order, but for the text of a `json.RawMessage`. -/
def Reordered : GoType → Json → Json → Prop
  | .any, v, v' => Shuffled v v'
  | .pointer elem, v, v' => Reordered elem v v'
  | .slice elem, v, v' =>
    match v, v' with
    | .array _ xs, .array _ ys => List.Forall₂ (Reordered elem) xs ys
    | v, v' => v = v'
  | .map elem, v, v' =>
    match v, v' with
    | .object _ ms, .object _ ms' => MembersReordered (fun _ => Reordered elem) ms ms'
    | v, v' => v = v'
  | .struct fields types, v, v' =>
    match v, v' with
    | .object _ ms, .object _ ms' => MembersReordered (MemberReordered fields fun i => Reordered (types i)) ms ms'
    | v, v' => v = v'
  | _, v, v' => v = v'

inductive Json.NamesDistinct : Json → Prop where
  | null : NamesDistinct .null
  | bool (b : Bool) : NamesDistinct (.bool b)
  | number (text : GoString) : NamesDistinct (.number text)
  | string (text value : GoString) : NamesDistinct (.string text value)
  | array {text : GoString} {items : List Json} (inner : ∀ x ∈ items, NamesDistinct x) :
      NamesDistinct (.array text items)
  | object {text : GoString} {members : List (GoString × Json)}
      (nodup : (members.map Prod.fst).Nodup) (inner : ∀ m ∈ members, NamesDistinct m.2) :
      NamesDistinct (.object text members)

theorem forall₂_exists_mem {α β : Type} {R : α → β → Prop} {xs : List α} {ys : List β}
    (h : List.Forall₂ R xs ys) {x : α} (hx : x ∈ xs) : ∃ y ∈ ys, R x y := by
  induction h with
  | nil => cases hx
  | cons hhead _ ih => grind

section
variable {R : GoString → Json → Json → Prop} {ms ms' : List (GoString × Json)}

theorem MembersReordered.names (h : MembersReordered R ms ms') : (ms.map Prod.fst).Perm (ms'.map Prod.fst) := by
  obtain ⟨mid, hvalues, hperm⟩ := h
  have hnames : List.Forall₂ Eq (ms.map Prod.fst) (mid.map Prod.fst) := by
    rw [forall₂_map_left_iff, forall₂_map_right_iff]
    exact hvalues.imp fun _ _ hab => hab.1
  rw [forall₂_eq_eq_eq] at hnames
  rw [hnames]
  exact hperm.map Prod.fst

theorem MembersReordered.forth (h : MembersReordered R ms ms') {m : GoString × Json} (hm : m ∈ ms) :
    ∃ v', (m.1, v') ∈ ms' ∧ R m.1 m.2 v' := by
  obtain ⟨mid, hvalues, hperm⟩ := h
  obtain ⟨⟨name, v'⟩, hmem, rfl, hR⟩ := forall₂_exists_mem hvalues hm
  exact ⟨v', hperm.mem_iff.mp hmem, hR⟩

theorem MembersReordered.back (h : MembersReordered R ms ms') {m' : GoString × Json}
    (hm : m' ∈ ms') : ∃ v, (m'.1, v) ∈ ms ∧ R m'.1 v m'.2 := by
  obtain ⟨mid, hvalues, hperm⟩ := h
  obtain ⟨⟨name, v⟩, hmem, rfl, hR⟩ := forall₂_exists_mem hvalues.flip (hperm.mem_iff.mpr hm)
  exact ⟨v, hmem, hR⟩

end

theorem Shuffled.membersReordered {ms mid ms' : List (GoString × Json)}
    (names : List.Forall₂ (fun a b => a.1 = b.1) ms mid)
    (values : List.Forall₂ Shuffled (ms.map Prod.snd) (mid.map Prod.snd)) (perm : mid.Perm ms') :
    MembersReordered (fun _ => Shuffled) ms ms' := by
  refine ⟨mid, ?_, perm⟩
  rw [forall₂_map_left_iff, forall₂_map_right_iff] at values
  exact names.mp (fun _ _ hname hvalue => ⟨hname, hvalue⟩) values

section
variable {elem : GoType} {v v' : Json}

theorem Reordered.slice_cases (h : Reordered (.slice elem) v v') :
    v = v' ∨ ∃ text text' xs ys, v = .array text xs ∧ v' = .array text' ys ∧ List.Forall₂ (Reordered elem) xs ys := by
  cases v <;> cases v' <;> first | exact .inl h | exact .inr ⟨_, _, _, _, rfl, rfl, h⟩

theorem Reordered.map_cases (h : Reordered (.map elem) v v') :
    v = v' ∨ ∃ text text' ms ms', v = .object text ms ∧ v' = .object text' ms' ∧
      MembersReordered (fun _ => Reordered elem) ms ms' := by
  cases v <;> cases v' <;> first | exact .inl h | exact .inr ⟨_, _, _, _, rfl, rfl, h⟩

theorem Reordered.struct_cases {fields : FieldNames} {types : Fin fields.names.length → GoType}
    (h : Reordered (.struct fields types) v v') :
    v = v' ∨ ∃ text text' ms ms', v = .object text ms ∧ v' = .object text' ms' ∧
      MembersReordered (MemberReordered fields fun i => Reordered (types i)) ms ms' := by
  cases v <;> cases v' <;> first | exact .inl h | exact .inr ⟨_, _, _, _, rfl, rfl, h⟩

theorem Reordered.null_iff {t : GoType} (h : Reordered t v v') : v = .null ↔ v' = .null := by
  induction t with
  | pointer elem ih => exact ih h
  | any =>
    cases h with
    | refl => rfl
    | array => simp
    | object => simp
  | slice elem =>
    rcases h.slice_cases with rfl | ⟨_, _, _, _, rfl, rfl, -⟩
    · rfl
    · simp
  | map elem =>
    rcases h.map_cases with rfl | ⟨_, _, _, _, rfl, rfl, -⟩
    · rfl
    · simp
  | struct fields types =>
    rcases h.struct_cases with rfl | ⟨_, _, _, _, rfl, rfl, -⟩
    · rfl
    · simp
  | _ =>
    cases h
    rfl

end

/-! ## What is decoded does not depend on the order -/

theorem mapM_of_forall₂ {α β ε : Type} {f : α → Except ε β} {R : α → α → Prop} {xs ys : List α}
    (h : List.Forall₂ R xs ys) (hR : ∀ x ∈ xs, ∀ y z, R x y → f x = .ok z → f y = .ok z)
    {zs : List β} (hxs : xs.mapM f = .ok zs) : ys.mapM f = .ok zs := by
  induction h generalizing zs with
  | nil => exact hxs
  | cons hhead _ ih => grind [accepted_bind_iff]

section
variable {ι ε : Type} [DecidableEq ι] {β : ι → Type}
  {target : GoString × Json → Except ε ((i : ι) × (β i → Except ε (β i)))}
  {placeOf : GoString → Option ι} {ms ms' : List (GoString × Json)}

omit [DecidableEq ι] in
theorem placesDistinct_of_nodup (hplace : ∀ m p, target m = .ok p → placeOf m.1 = some p.1)
    (hnodup : ((ms.map Prod.fst).filterMap placeOf).Nodup) : PlacesDistinct target ms := by
  unfold PlacesDistinct
  unfold List.Nodup at hnodup
  rw [pairwise_filterMap, pairwise_map] at hnodup
  exact hnodup.imp fun {a b} hab p q hp hq => hab p.1 (hplace a p hp) q.1 (hplace b q hq)

/-- **Members in another order** are assigned to the same effect. -/
theorem assignAll_reordered (placeOf : GoString → Option ι) {R : GoString → Json → Json → Prop}
    (hplace : ∀ m p, target m = .ok p → placeOf m.1 = some p.1)
    (hnodup : ((ms.map Prod.fst).filterMap placeOf).Nodup) (h : MembersReordered R ms ms')
    (hR : ∀ name v v', (name, v) ∈ ms → R name v v' → ∀ i f, target (name, v) = .ok ⟨i, f⟩ →
      ∃ g, target (name, v') = .ok ⟨i, g⟩ ∧ ∀ a b, f a = .ok b → g a = .ok b)
    {s s' : ∀ i, β i} (hms : assignAll target s ms = .ok s') : assignAll target s ms' = .ok s' := by
  have hnodup' : ((ms'.map Prod.fst).filterMap placeOf).Nodup := (h.names.filterMap placeOf).nodup_iff.mp hnodup
  obtain ⟨hall, hsame⟩ := (assignAll_ok_iff (placesDistinct_of_nodup hplace hnodup)).mp hms
  refine (assignAll_ok_iff (placesDistinct_of_nodup hplace hnodup')).mpr ⟨?_, ?_⟩
  · intro m' hm'
    obtain ⟨v, hmem, hv⟩ := h.back hm'
    obtain ⟨⟨i, f⟩, htarget, hstep⟩ := hall _ hmem
    obtain ⟨g, htarget', hg⟩ := hR _ _ _ hmem hv i f htarget
    exact ⟨⟨i, g⟩, htarget', hg _ _ hstep⟩
  · intro i hi
    refine hsame i fun m hm p hp => ?_
    obtain ⟨v', hmem', hv'⟩ := h.forth hm
    obtain ⟨g, htarget', -⟩ := hR _ _ _ hm hv' p.1 p.2 hp
    exact hi _ hmem' ⟨p.1, g⟩ htarget'

end

section
variable (parseFloat : GoString → Option Float64)

theorem toAnyItems_eq_mapM (items : List Json) : toAnyItems parseFloat items = items.mapM (toAny parseFloat) := by
  induction items with
  | nil => simp [toAnyItems, pure, Except.pure]
  | cons v vs ih => rw [toAnyItems, ih, mapM_cons]

theorem toAnyMembers_eq_assignAll (members : List (GoString × Json)) (m : GoString → Option AnyValue) :
    toAnyMembers parseFloat m members = assignAll (mapTarget (toAny parseFloat)) m members := by
  induction members generalizing m with
  | nil => rw [toAnyMembers, assignAll]
  | cons e rest ih =>
    obtain ⟨name, v⟩ := e
    rw [toAnyMembers, assignAll]
    show (toAny parseFloat v >>= _) = ((toAny parseFloat v).map some >>= _)
    cases toAny parseFloat v with
    | error e => rfl
    | ok x => exact ih _

variable {v : Json}

theorem toAny_shuffled {v' : Json} (hnames : v.NamesDistinct) (h : Shuffled v v') {x : AnyValue}
    (hv : toAny parseFloat v = .ok x) : toAny parseFloat v' = .ok x := by
  induction v using Json.induct generalizing v' x with
  | harray text items ih =>
    cases hnames with
    | array hinner =>
      cases h with
      | refl => exact hv
      | array hitems => grind [toAny, toAnyItems_eq_mapM, map_eq_ok_iff, mapM_of_forall₂]
  | hobject text members ih =>
    cases hnames with
    | object hnodup hinner =>
      cases h with
      | refl => exact hv
      | object names values perm =>
        rw [toAny, toAnyMembers_eq_assignAll, map_eq_ok_iff] at hv ⊢
        obtain ⟨m, hm, rfl⟩ := hv
        refine ⟨m, ?_, rfl⟩
        refine assignAll_reordered some ?_ ?_ (Shuffled.membersReordered names values perm) ?_ hm
        · rintro e p hp
          cases hp
          rfl
        · rwa [filterMap_some]
        · rintro name v v' hmem hvv i f hf
          cases hf
          refine ⟨_, rfl, fun _ b hb => ?_⟩
          rw [map_eq_ok_iff] at hb ⊢
          obtain ⟨a, ha, rfl⟩ := hb
          exact ⟨a, ih _ hmem (hinner _ hmem) hvv ha, rfl⟩
  | _ =>
    cases h
    exact hv

theorem decodeValue_pointer {elem : GoType} {old : (GoType.pointer elem).Value} (hnull : v ≠ .null) :
    decodeValue parseFloat (.pointer elem) old v =
      (decodeValue parseFloat elem (Option.getD old elem.zero) v).map some := by
  cases v with
  | null => exact absurd rfl hnull
  | _ => rfl

variable (t : GoType)

/-- **Order independence.** If no two members go to one field, their order does not matter. -/
theorem decodeValue_reordered {old x : t.Value} {v' : Json} (hnames : v.NamesDistinct)
    (honce : ∀ o ∈ structObjects t v, o.AssignedOnce) (h : Reordered t v v')
    (hv : decodeValue parseFloat t old v = .ok x) : decodeValue parseFloat t old v' = .ok x := by
  induction t generalizing v v' with
  | string => exact h ▸ hv
  | bool => exact h ▸ hv
  | int => exact h ▸ hv
  | float => exact h ▸ hv
  | rawMessage => exact h ▸ hv
  | any => exact toAny_shuffled parseFloat hnames h hv
  | pointer elem ih =>
    by_cases hnull : v = .null
    · rw [h.null_iff.mp hnull]
      rwa [hnull] at hv
    · rw [decodeValue_pointer parseFloat hnull] at hv
      rw [decodeValue_pointer parseFloat fun hv' => hnull (h.null_iff.mpr hv')]
      obtain ⟨a, ha, rfl⟩ := map_eq_ok_iff.mp hv
      exact map_eq_ok_iff.mpr ⟨a, ih hnames honce h ha, rfl⟩
  | slice elem ih =>
    rcases h.slice_cases with rfl | ⟨text, text', xs, ys, rfl, rfl, hitems⟩
    · exact hv
    · cases hnames with
      | array hinner =>
        obtain ⟨zs, hzs, rfl⟩ := map_eq_ok_iff.mp hv
        refine map_eq_ok_iff.mpr ⟨zs, mapM_of_forall₂ hitems (fun y hy y' z hyy hz => ?_) hzs, rfl⟩
        refine ih (hinner y hy) (fun o ho => honce o ?_) hyy hz
        exact mem_flatMap.mpr ⟨y, hy, ho⟩
  | map elem ih =>
    rcases h.map_cases with rfl | ⟨text, text', ms, ms', rfl, rfl, hmembers⟩
    · exact hv
    · cases hnames with
      | object hnodup hinner =>
        obtain ⟨m, hm, rfl⟩ := map_eq_ok_iff.mp hv
        refine map_eq_ok_iff.mpr ⟨m, assignAll_reordered some ?_ ?_ hmembers ?_ hm, rfl⟩
        · rintro e p hp
          cases hp
          rfl
        · rwa [filterMap_some]
        · rintro name v v' hmem hvv i f hf
          cases hf
          refine ⟨_, rfl, fun _ b hb => ?_⟩
          rw [map_eq_ok_iff] at hb ⊢
          obtain ⟨a, ha, rfl⟩ := hb
          refine ⟨a, ih (hinner _ hmem) (fun o ho => honce o ?_) hvv ha, rfl⟩
          exact mem_flatMap.mpr ⟨_, hmem, ho⟩
  | struct fields types ih =>
    rcases h.struct_cases with rfl | ⟨text, text', ms, ms', rfl, rfl, hmembers⟩
    · exact hv
    · cases hnames with
      | object hnodup hinner =>
        refine assignAll_reordered fields.lookup ?_ ?_ hmembers ?_ hv
        · grind [structTarget]
        · refine honce ⟨fields, ms.map Prod.fst⟩ ?_
          grind [structObjects_struct]
        · rintro name v v' hmem hvv i f hf
          unfold structTarget at hf ⊢
          unfold MemberReordered at hvv
          cases hfield : fields.lookup name with
          | none =>
            simp only [hfield] at hf
            cases hf
          | some j =>
            simp only [hfield] at hf hvv ⊢
            cases hf
            grind [structObjects_struct]

/-! ## What an accepted document looks like -/

theorem assignAll_ok_mem {α ι ε : Type} [DecidableEq ι] {β : ι → Type}
    {target : α → Except ε ((i : ι) × (β i → Except ε (β i)))} {ms : List α} {s s' : ∀ i, β i}
    (h : assignAll target s ms = .ok s') {m : α} (hm : m ∈ ms) :
    ∃ p a b, target m = .ok p ∧ p.2 a = .ok b := by
  induction ms generalizing s with
  | nil => cases hm
  | cons first rest ih => grind [assignAll, accepted_bind_iff]

theorem mapM_ok_mem {α β ε : Type} {f : α → Except ε β} {xs : List α} {ys : List β}
    (h : xs.mapM f = .ok ys) {x : α} (hx : x ∈ xs) : ∃ y, f x = .ok y := by
  induction xs generalizing ys with
  | nil => cases hx
  | cons first rest ih => grind [accepted_bind_iff]

theorem structObjects_null : structObjects t .null = [] := by
  induction t with
  | pointer elem ih => exact ih
  | _ => rfl

theorem decodeValue_names_known {old x : t.Value} (hv : decodeValue parseFloat t old v = .ok x) {o : StructObject}
    (ho : o ∈ structObjects t v) :
    ∀ n ∈ o.names, (o.fields.lookup n).isSome := by
  induction t generalizing v with
  | pointer elem ih =>
    by_cases hnull : v = .null
    · rw [hnull, structObjects_null] at ho
      cases ho
    · rw [decodeValue_pointer parseFloat hnull] at hv
      obtain ⟨a, ha, -⟩ := map_eq_ok_iff.mp hv
      exact ih ha ho
  | slice elem ih =>
    cases v with
    | array text items =>
      obtain ⟨zs, hzs, -⟩ := map_eq_ok_iff.mp hv
      obtain ⟨item, hitem, ho⟩ := mem_flatMap.mp ho
      obtain ⟨z, hz⟩ := mapM_ok_mem hzs hitem
      exact ih hz ho
    | _ => cases ho
  | map elem ih =>
    cases v with
    | object text members =>
      obtain ⟨m, hm, -⟩ := map_eq_ok_iff.mp hv
      obtain ⟨entry, hentry, ho⟩ := mem_flatMap.mp ho
      obtain ⟨p, a, b, hp, hb⟩ := assignAll_ok_mem hm hentry
      cases hp
      grind [map_eq_ok_iff]
    | _ => cases ho
  | struct fields types ih =>
    cases v with
    | object text members =>
      have htarget : ∀ m ∈ members, ∃ i a b, fields.lookup m.1 = some i ∧
          decodeValue parseFloat (types i) a m.2 = .ok b := by
        intro m hm
        obtain ⟨p, a, b, hp, hb⟩ := assignAll_ok_mem hv hm
        unfold structTarget at hp
        split at hp
        · cases hp
        · rename_i i hfield
          cases hp
          exact ⟨i, a, b, hfield, hb⟩
      grind [structObjects_struct]
    | _ => cases ho
  | _ => cases ho

theorem structObjects_names_nodup (hnames : v.NamesDistinct) {o : StructObject} (ho : o ∈ structObjects t v) :
    o.names.Nodup := by
  induction t generalizing v with
  | pointer elem ih => exact ih hnames ho
  | slice elem ih =>
    cases hnames with
    | array hinner =>
      obtain ⟨item, hitem, ho⟩ := mem_flatMap.mp ho
      exact ih (hinner item hitem) ho
    | _ => cases ho
  | map elem ih =>
    cases hnames with
    | object hnodup hinner =>
      obtain ⟨entry, hentry, ho⟩ := mem_flatMap.mp ho
      exact ih (hinner entry hentry) ho
    | _ => cases ho
  | struct fields types ih =>
    cases hnames with
    | object hnodup hinner => grind [structObjects_struct]
    | _ => cases ho
  | _ => cases ho

end

end BitAgent.Lib
