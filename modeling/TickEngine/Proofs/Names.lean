/-
  Names of component types that their identifiers tell apart.

  The factor of the hash has an inverse among the words, so every round keeps
  different states apart.  What two names end in alike therefore neither makes
  nor hides a difference of their hashes (`TypeId.mixAll_append_inj`).

  * `OneByteApart`: two byte sequences differ at exactly one place, where
    `OneByteApart.exists_split` takes them apart;
  * `TypeId.separates_oneByteApart`: names one byte apart have different
    identifiers, and neither stands in the way of the other's registration.
-/
import TickEngine.Proofs.Records

namespace TickEngine

/-! ## Sequences that differ at one place -/

/-- The sequences have one length and differ at exactly one place. -/
def OneByteApart (bs cs : List UInt8) : Prop :=
  bs.length = cs.length ∧
    ∃ i < bs.length, bs[i]? ≠ cs[i]? ∧ ∀ j < bs.length, j ≠ i → bs[j]? = cs[j]?

instance (bs cs : List UInt8) : Decidable (OneByteApart bs cs) :=
  inferInstanceAs (Decidable (bs.length = cs.length ∧
    ∃ i < bs.length, bs[i]? ≠ cs[i]? ∧ ∀ j < bs.length, j ≠ i → bs[j]? = cs[j]?))

theorem OneByteApart.exists_split {bs cs : List UInt8} (h : OneByteApart bs cs) :
    ∃ p b c s, b ≠ c ∧ bs = p ++ b :: s ∧ cs = p ++ c :: s := by
  obtain ⟨hlen, i, hi, hne, hsame⟩ := h
  have hi' : i < cs.length := hlen ▸ hi
  -- Past their ends both lists have nothing, so they agree there too.
  have hagree : ∀ j, j ≠ i → bs[j]? = cs[j]? := by
    intro j hj
    by_cases hlt : j < bs.length
    · exact hsame j hlt hj
    · rw [List.getElem?_eq_none (by omega), List.getElem?_eq_none (by omega)]
  have htake : bs.take i = cs.take i := by
    refine List.ext_getElem? fun j => ?_
    rw [List.getElem?_take, List.getElem?_take]
    split
    · exact hagree j (by omega)
    · rfl
  have hdrop : bs.drop (i + 1) = cs.drop (i + 1) := by
    refine List.ext_getElem? fun j => ?_
    rw [List.getElem?_drop, List.getElem?_drop]
    exact hagree (i + 1 + j) (by omega)
  refine ⟨bs.take i, bs[i], cs[i], bs.drop (i + 1), ?_, ?_, ?_⟩
  · rwa [List.getElem?_eq_getElem hi, List.getElem?_eq_getElem hi', Ne, Option.some_inj] at hne
  · rw [← List.drop_eq_getElem_cons hi, List.take_append_drop]
  · rw [htake, hdrop, ← List.drop_eq_getElem_cons hi', List.take_append_drop]

namespace TypeId

variable {hash hash' : UInt64} {p q s : List UInt8} {b c : UInt8}

/-! ## One round -/

/-- The inverse of the factor, modulo `2 ^ 64`. -/
def primeInverse : UInt64 := 0xce965057aff6957b

theorem prime_mul_primeInverse : prime * primeInverse = 1 := rfl

theorem mul_prime_injective : Function.Injective fun x : UInt64 => x * prime := by
  refine Function.LeftInverse.injective (g := fun x => x * primeInverse) fun x => ?_
  calc x * prime * primeInverse
      = x * (prime * primeInverse) := UInt64.mul_assoc ..
    _ = x := by rw [prime_mul_primeInverse, UInt64.mul_one]

/-- The product loses nothing of the exclusive or that enters it. -/
theorem mix_eq_mix_iff : mix hash b = mix hash' c ↔ hash ^^^ b.toUInt64 = hash' ^^^ c.toUInt64 :=
  mul_prime_injective.eq_iff

theorem mix_injective (b : UInt8) : Function.Injective fun hash => mix hash b := by
  intro hash hash' h
  exact (UInt64.xor_left_inj _).1 (mix_eq_mix_iff.1 h)

theorem mix_right_inj : mix hash b = mix hash c ↔ b = c := by
  rw [mix_eq_mix_iff, UInt64.xor_right_inj, UInt8.toUInt64_inj]

/-! ## All rounds -/

/-- Rounds over the same bytes keep different states apart. -/
theorem mixAll_injective (s : List UInt8) : Function.Injective fun hash => mixAll hash s := by
  induction s with
  | nil => exact Function.injective_id
  | cons b s ih => exact ih.comp (mix_injective b)

/-- What comes last alike neither makes nor hides a difference. -/
theorem mixAll_append_inj :
    mixAll hash (p ++ s) = mixAll hash' (q ++ s) ↔ mixAll hash p = mixAll hash' q := by
  rw [mixAll_append, mixAll_append]
  exact (mixAll_injective s).eq_iff

/-- One byte can be read off from the hash and the other bytes. -/
theorem mixAll_middle_inj :
    mixAll hash (p ++ b :: s) = mixAll hash (p ++ c :: s) ↔ b = c := by
  have hbyte : ∀ a, p ++ a :: s = (p ++ [a]) ++ s := fun a => by simp
  rw [hbyte b, hbyte c, mixAll_append_inj, mixAll_append, mixAll_append]
  exact mix_right_inj

theorem mixAll_ne_of_oneByteApart {bs cs : List UInt8} (h : OneByteApart bs cs) :
    mixAll hash bs ≠ mixAll hash cs := by
  obtain ⟨p, b, c, s, hne, rfl, rfl⟩ := h.exists_split
  exact fun heq => hne (mixAll_middle_inj.1 heq)

theorem ofName_ne_of_oneByteApart {a b : String}
    (h : OneByteApart a.toUTF8.toList b.toUTF8.toList) : ofName a ≠ ofName b := by
  intro heq
  exact mixAll_ne_of_oneByteApart h (congrArg TypeId.hash heq)

end TypeId

/-! ## Registrations -/

namespace Registry

theorem get?_after_of_ne {reg : Registry} {info : TypeInfo} {id : TypeId} (h : info.id ≠ id) :
    (reg.after info).get? id = reg.get? id := by
  obtain heq | ⟨-, heq⟩ := reg.after_cases info
  · rw [heq]
  · rw [heq, SortedMap.get?_insert_of_ne _ h]

/-- What a registration answers depends on what is known of its own identifier. -/
theorem map_fst_register {reg reg' : Registry} {info : TypeInfo}
    (h : reg.get? info.id = reg'.get? info.id) :
    (reg.register info).map (·.1) = (reg'.register info).map (·.1) := by
  unfold register
  rw [h]
  cases reg'.get? info.id with
  | none => rfl
  | some existing => by_cases hname : existing.name = info.name <;> simp [hname, Except.map]

end Registry

/-! ## Names -/

/-- **A changed byte shows in the identifier.**  Names one byte apart have
    different identifiers; more generally, equal ends make no hashes equal and
    none different.  So the registration of a type does not change what that of
    a type with a name one byte apart answers. -/
theorem TypeId.separates_oneByteApart :
    (∀ a b : String, OneByteApart a.toUTF8.toList b.toUTF8.toList → ofName a ≠ ofName b) ∧
    (∀ (hash : UInt64) (p q s : List UInt8),
      mixAll hash (p ++ s) = mixAll hash (q ++ s) ↔ mixAll hash p = mixAll hash q) ∧
    ∀ (reg : Registry) (t u : ComponentType),
      OneByteApart t.name.toUTF8.toList u.name.toUTF8.toList →
      ((reg.after (.of t)).register (.of u)).map (·.1) = (reg.register (.of u)).map (·.1) := by
  refine ⟨fun a b h => ofName_ne_of_oneByteApart h, fun hash p q s => mixAll_append_inj, ?_⟩
  intro reg t u h
  have hne : (TypeInfo.of t).id ≠ (TypeInfo.of u).id := ofName_ne_of_oneByteApart h
  exact Registry.map_fst_register (Registry.get?_after_of_ne hne)

/-- Two accents that differ in the second of their bytes, with a common end; both
    names can be registered. -/
theorem TypeId.separates_oneByteApart_accents :
    let t := Catalog.named "Vélocité" Catalog.plane
    let u := Catalog.named "Vèlocité" Catalog.plane
    OneByteApart t.name.toUTF8.toList u.name.toUTF8.toList ∧
      ofName t.name ≠ ofName u.name ∧
      ((Registry.after .empty (.of t)).register (.of u)).map (·.1) = .ok true := by
  intro t u
  have ht : t.name.toUTF8.toList = [86, 195, 169, 108, 111, 99, 105, 116, 195, 169] := by cbv
  have hu : u.name.toUTF8.toList = [86, 195, 168, 108, 111, 99, 105, 116, 195, 169] := by cbv
  have h : OneByteApart t.name.toUTF8.toList u.name.toUTF8.toList := by
    rw [ht, hu]
    decide
  obtain ⟨hnames, -, hregister⟩ := separates_oneByteApart
  exact ⟨h, hnames _ _ h, (hregister .empty t u h).trans rfl⟩

/-- Names that differ in more bytes may share an identifier. -/
example : TypeId.ofName "7mohtcOFVz" = TypeId.ofName "c1E51sSEyx" := by cbv

end TickEngine
