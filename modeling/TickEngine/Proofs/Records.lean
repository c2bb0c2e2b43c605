/-
  Records read back as the components they were written from.

  A registry is what registrations lead to (`Registry.ofList`), and keeps to
  the first type under an identifier, whatever is registered later.

  * `Component.record_roundTrip`: the record of a component of the catalog
    reads back as its type, and through a registry that knows it by this type;
    other types and other registries refuse it.
-/
import TickEngine.Component.Catalog
import TickEngine.Component.Registry
import TickEngine.Proofs.Order
import TickEngine.Proofs.Shapes

namespace TickEngine

open Schema (Shape Delimits)

namespace Registry

/-! ## Registrations in turn -/

/-- The registry after a registration, which may be refused. -/
def after (reg : Registry) (info : TypeInfo) : Registry :=
  match reg.register info with
  | .ok (_, reg') => reg'
  | .error _ => reg

/-- The registry that registrations lead to. -/
def ofList (infos : List TypeInfo) : Registry := infos.foldl after .empty

theorem after_cases (reg : Registry) (info : TypeInfo) :
    reg.after info = reg ∨
      reg.get? info.id = none ∧ reg.after info = reg.insert info.id info := by
  unfold after register
  cases h : reg.get? info.id with
  | none => exact .inr ⟨rfl, rfl⟩
  | some existing =>
    left
    by_cases hname : existing.name = info.name <;> simp [hname]

/-- What is known of an identifier stays known. -/
theorem get?_foldl_after {reg : Registry} {id : TypeId} {info : TypeInfo}
    (h : reg.get? id = some info) (later : List TypeInfo) :
    (later.foldl after reg).get? id = some info := by
  induction later generalizing reg with
  | nil => exact h
  | cons next later ih =>
    apply ih
    obtain heq | ⟨hnone, heq⟩ := reg.after_cases next
    · rw [heq, h]
    · have hne : next.id ≠ id := by
        rintro rfl
        rw [hnone] at h
        cases h
      rw [heq, SortedMap.get?_insert_of_ne _ hne, h]

theorem mem_of_get?_foldl_after {reg : Registry} {id : TypeId} {info : TypeInfo}
    {infos : List TypeInfo} (h : (infos.foldl after reg).get? id = some info) :
    reg.get? id = some info ∨ info ∈ infos := by
  induction infos generalizing reg with
  | nil => exact .inl h
  | cons next infos ih =>
    obtain hnext | hmem := ih h
    · obtain heq | ⟨hnone, heq⟩ := reg.after_cases next
      · exact .inl (heq ▸ hnext)
      · rw [heq, SortedMap.get?_insert] at hnext
        split at hnext
        · cases hnext
          exact .inr List.mem_cons_self
        · exact .inl hnext
    · exact .inr (List.mem_cons_of_mem _ hmem)

/-- The type was registered, and none before it under its name. -/
def Introduced (reg : Registry) (t : ComponentType) : Prop :=
  ∃ earlier later : List TypeInfo, reg = ofList (earlier ++ .of t :: later) ∧
    (∀ info ∈ earlier, info.name ≠ t.name) ∧ ((ofList earlier).register (.of t)).isOk

theorem Introduced.get? {reg : Registry} {t : ComponentType} (h : reg.Introduced t) :
    reg.get? t.id = some (.of t) := by
  obtain ⟨earlier, later, rfl, hnames, hok⟩ := h
  rw [ofList, List.foldl_append, List.foldl_cons]
  apply get?_foldl_after
  change ((ofList earlier).after (.of t)).get? t.id = _
  unfold after
  unfold register at hok ⊢
  cases hknown : (ofList earlier).get? (TypeInfo.of t).id with
  | none => exact SortedMap.get?_insert_self ..
  | some existing =>
    -- A known identifier would be that of an earlier type, and of the same name.
    have hne : existing.name ≠ t.name := by
      obtain hempty | hmem := mem_of_get?_foldl_after hknown
      · cases hempty
      · exact hnames existing hmem
    rw [hknown] at hok
    simp [TypeInfo.of, hne, Except.isOk, Except.toBool] at hok

theorem decode_of_get? {reg : Registry} {t : ComponentType} (h : reg.get? t.id = some (.of t))
    (data : MessagePack.Bytes) :
    reg.decode ⟨t.id, data⟩ = (t.decode data).map (Component.mk t) := by
  simp [decode, h, TypeInfo.decode, TypeInfo.of]

end Registry

/-! ## Records -/

theorem Catalog.wellFormed_shape : ∀ t ∈ Catalog.all, t.shape.wellFormed := by decide

theorem Component.record_eq_ok {t : ComponentType} {x : t.Data} {r : Record}
    (h : record ⟨t, x⟩ = .ok r) : t.shape.encode? .named x = some r.data ∧ r.typeId = t.id := by
  unfold record at h
  split at h
  · rename_i data hdata
    cases h
    exact ⟨hdata, rfl⟩
  · cases h

theorem ComponentType.decode_of_delimits {t : ComponentType} {x : t.Data}
    {data : MessagePack.Bytes} (h : Delimits t.shape.decode? data x) :
    (∀ more, t.decode (data ++ more) = .ok x) ∧
      ∀ part, part <+: data → part ≠ data → t.decode part = .error .decode := by
  constructor
  · intro more
    rw [decode, h.append]
  · intro part hpart hne
    rw [decode, h.strictPrefix part hpart hne]

/-- **Records read back.**  The record of a component reads back as the same
    component, whatever follows its bytes; nothing reads back from fewer of
    them, and nothing under another identifier. -/
theorem Component.record_roundTrip {t : ComponentType} (ht : t ∈ Catalog.all) {x : t.Data}
    (hx : t.shape.Short x) {r : Record} (hr : record ⟨t, x⟩ = .ok r) :
    r.typeId = t.id ∧
    (∀ more, t.ofRecord ⟨r.typeId, r.data ++ more⟩ = .ok x) ∧
    (∀ part, part <+: r.data → part ≠ r.data → t.ofRecord ⟨r.typeId, part⟩ = .error .decode) ∧
    (∀ reg : Registry, reg.Introduced t →
      (∀ more, reg.decode ⟨r.typeId, r.data ++ more⟩ = .ok ⟨t, x⟩) ∧
      ∀ part, part <+: r.data → part ≠ r.data → reg.decode ⟨r.typeId, part⟩ = .error .decode) ∧
    (∀ (t' : ComponentType) (data : MessagePack.Bytes), t'.id ≠ t.id →
      t'.ofRecord ⟨r.typeId, data⟩ = .error (.typeMismatch t'.id t.id)) ∧
    ∀ (reg : Registry) (data : MessagePack.Bytes), reg.get? t.id = none →
      reg.decode ⟨r.typeId, data⟩ = .error (.unknownType t.id) := by
  obtain ⟨hencode, hid⟩ := record_eq_ok hr
  obtain ⟨happend, hprefix⟩ := ComponentType.decode_of_delimits
    (Shape.delimits (Catalog.wellFormed_shape t ht) hx hencode)
  rw [hid]
  refine ⟨rfl, ?_, ?_, ?_, ?_, ?_⟩
  · intro more
    rw [ComponentType.ofRecord, if_pos rfl, happend]
  · intro part hpart hne
    rw [ComponentType.ofRecord, if_pos rfl, hprefix part hpart hne]
  · intro reg hreg
    constructor
    · intro more
      rw [Registry.decode_of_get? hreg.get?, happend]
      rfl
    · intro part hpart hne
      rw [Registry.decode_of_get? hreg.get?, hprefix part hpart hne]
      rfl
  · intro t' data hne
    rw [ComponentType.ofRecord, if_neg (Ne.symm hne)]
  · intro reg data hnone
    rw [Registry.decode, hnone]

/-- A quiet NaN with a payload and a negative zero, among types with other
    names. -/
theorem Component.record_roundTrip_position :
    let x : Catalog.position.Data := (⟨0x7fc00001⟩, ⟨0x80000000⟩, ())
    let r : Record := ⟨Catalog.position.id, [0x82, 0xa1, 0x78, 0xca, 0x7f, 0xc0, 0x00, 0x01,
      0xa1, 0x79, 0xca, 0x80, 0x00, 0x00, 0x00]⟩
    let reg := Registry.ofList [.of Catalog.xAlias, .of Catalog.position, .of Catalog.x]
    record ⟨Catalog.position, x⟩ = .ok r ∧
      (∀ more, Catalog.position.ofRecord ⟨r.typeId, r.data ++ more⟩ = .ok x) ∧
      reg.Introduced Catalog.position ∧
      ∀ more, reg.decode ⟨r.typeId, r.data ++ more⟩ = .ok ⟨Catalog.position, x⟩ := by
  intro x r reg
  have hx : Catalog.position.shape.Short x := ⟨trivial, trivial, trivial⟩
  have hdata : Catalog.position.shape.encode? .named x = some r.data := by cbv
  have hr : record ⟨Catalog.position, x⟩ = .ok r := by
    rw [record, hdata]
    rfl
  have hreg : reg.Introduced Catalog.position :=
    ⟨[.of Catalog.xAlias], [.of Catalog.x], rfl, by decide, by cbv⟩
  obtain ⟨-, hread, -, hdecode, -⟩ := record_roundTrip (by decide) hx hr
  exact ⟨hr, hread, hreg, (hdecode reg hreg).1⟩

end TickEngine
