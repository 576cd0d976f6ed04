import Mathlib.Data.List.Nodup
import Interpose.Proofs.Execution.Identities

/-!
# Tables that agree

The method lists of the types and the declaring types of the methods are independent data. Where the
two agree, every method stands in one list only, and a method that `find_method` finds by name is
the first one of that name that the type declares.
-/

namespace Interpose

namespace Module

/-- Whether a type declares the method of a token. -/
def DeclaredOn (m : Module) (t : TypeToken) (u : MethodToken) : Prop :=
  ∃ d, m.method? u = some d ∧ d.declaringType = t

def Named (m : Module) (name : String) (u : MethodToken) : Prop :=
  ∃ d, m.method? u = some d ∧ d.name = name

instance (m : Module) (t : TypeToken) (u : MethodToken) : Decidable (m.DeclaredOn t u) :=
  inferInstanceAs (Decidable (∃ d, d ∈ m.method? u ∧ d.declaringType = t))

instance (m : Module) (name : String) (u : MethodToken) : Decidable (m.Named name u) :=
  inferInstanceAs (Decidable (∃ d, d ∈ m.method? u ∧ d.name = name))

/-- Each type lists the methods that it declares, in ascending order, and every method is declared
by a type of the module. -/
structure TablesAgree (m : Module) : Prop where
  ascending {t : TypeToken} {type : TypeDef} (h : m.type? t = some type) :
    type.methods.Pairwise fun u v => u.position < v.position
  listed {t : TypeToken} {type : TypeDef} (h : m.type? t = some type) (u : MethodToken) :
    u ∈ type.methods ↔ m.DeclaredOn t u
  declaring {d : MethodDef} (h : d ∈ m.methods) : ∃ type, m.type? d.declaringType = some type

variable {m m' : Module} {t : TypeToken} {u : MethodToken} {type : TypeDef} {d : MethodDef}
  {name : String}

theorem Declares.declaredOn_iff (h : m.Declares m') :
    m'.DeclaredOn t u ↔ m.DeclaredOn t u := by
  unfold DeclaredOn
  obtain ⟨hm, hm'⟩ | ⟨d, d', hd, hd', htype, _⟩ := h.method?_cases u
  · rw [hm, hm']
  · simp [hd, hd', htype]

theorem TablesAgree.declares (hm : m.TablesAgree) (h : m.Declares m') : m'.TablesAgree where
  ascending htype := hm.ascending ((h.type? _).symm.trans htype)
  listed htype u := (hm.listed ((h.type? _).symm.trans htype) u).trans h.declaredOn_iff.symm
  declaring {d'} hd' := by
    obtain ⟨d, hd, hsame⟩ := List.mem_map.1 (h.methods ▸ List.mem_map_of_mem hd')
    rw [h.type?, ← (MethodDef.declaration_eq_iff.1 hsame).1]
    exact hm.declaring hd

/-! ### Looking up by name -/

theorem findType?_eq_some (hfew : m.types.length ≤ UInt32.size) (h : m.findType? name = some t) :
    ∃ type, m.type? t = some type ∧ type.name = name := by
  obtain ⟨k, hk, rfl⟩ := Option.map_eq_some_iff.1 h
  obtain ⟨hlt, hname, _⟩ := List.findIdx?_eq_some_iff_getElem.1 hk
  have hposition := TypeToken.position_ofPosition (Nat.lt_of_lt_of_le hlt hfew)
  refine ⟨m.types[k], ?_, of_decide_eq_true hname⟩
  rw [type?, hposition, List.getElem?_eq_getElem hlt]

theorem findMethod?_eq_find? (htype : m.type? t = some type) (name : String) :
    m.findMethod? t name =
      type.methods.find? fun u => (m.method? u).any fun d => d.name = name := by
  unfold findMethod?
  simp only [htype]
  congr 1
  funext u
  cases m.method? u with
  | none => rfl
  | some d => rfl

theorem any_name_iff : ((m.method? u).any fun d => d.name = name) = true ↔ m.Named name u := by
  unfold Named
  cases m.method? u with
  | none => simp
  | some d => simp

theorem findMethod?_eq_some_iff (htype : m.type? t = some type) :
    m.findMethod? t name = some u ↔ m.Named name u ∧ ∃ before after,
      type.methods = before ++ u :: after ∧ ∀ v ∈ before, ¬m.Named name v := by
  rw [findMethod?_eq_find? htype, List.find?_eq_some_iff_append, any_name_iff]
  refine and_congr_right fun _ => exists_congr fun before => exists_congr fun after => ?_
  refine and_congr_right fun _ => forall_congr' fun v => forall_congr' fun _ => ?_
  rw [Bool.not_eq_true', ← Bool.not_eq_true, any_name_iff]

theorem findMethod?_eq_none_iff (htype : m.type? t = some type) :
    m.findMethod? t name = none ↔ ∀ u ∈ type.methods, ¬m.Named name u := by
  rw [findMethod?_eq_find? htype, List.find?_eq_none]
  refine forall_congr' fun u => forall_congr' fun _ => ?_
  rw [any_name_iff]

theorem method?_ofPosition {k : Nat} (hk : k < UInt32.size) :
    m.method? (.ofPosition k) = m.methods[k]? := by
  rw [method?, MethodToken.position_ofPosition hk]

/-- Where the tables agree, the method that is found is the first one in the method table. -/
theorem TablesAgree.findMethod?_eq (hm : m.TablesAgree) (hfew : m.methods.length ≤ UInt32.size)
    (t : TypeToken) (name : String) :
    m.findMethod? t name =
      (m.methods.findIdx? fun d => d.declaringType = t ∧ d.name = name).map .ofPosition := by
  cases htype : m.type? t with
  | none =>
    have hnone : (m.methods.findIdx? fun d => d.declaringType = t ∧ d.name = name) = none := by
      refine List.findIdx?_eq_none_iff.2 fun d hd => decide_eq_false fun h => ?_
      obtain ⟨type, hdeclaring⟩ := hm.declaring hd
      cases htype.symm.trans (h.1 ▸ hdeclaring)
    rw [hnone, findMethod?, htype]
    rfl
  | some type =>
    cases hk : m.methods.findIdx? fun d => d.declaringType = t ∧ d.name = name with
    | none =>
      refine (findMethod?_eq_none_iff htype).2 fun u hu ⟨d, hd, hname⟩ => ?_
      obtain ⟨d', hd', hdeclaring⟩ := (hm.listed htype u).1 hu
      cases hd.symm.trans hd'
      have hfalse := List.findIdx?_eq_none_iff.1 hk d (List.mem_of_getElem? hd)
      exact of_decide_eq_false hfalse ⟨hdeclaring, hname⟩
    | some k =>
      obtain ⟨hlt, hfound, hbefore⟩ := List.findIdx?_eq_some_iff_getElem.1 hk
      obtain ⟨hdeclaring, hname⟩ := of_decide_eq_true hfound
      have hposition := MethodToken.position_ofPosition (Nat.lt_of_lt_of_le hlt hfew)
      have hd : m.method? (.ofPosition k) = some m.methods[k] := by
        rw [method?, hposition, List.getElem?_eq_getElem hlt]
      obtain ⟨before, after, hsplit⟩ :=
        List.append_of_mem ((hm.listed htype _).2 ⟨_, hd, hdeclaring⟩)
      refine (findMethod?_eq_some_iff htype).2
        ⟨⟨_, hd, hname⟩, before, after, hsplit, fun v hv ⟨e, he, hename⟩ => ?_⟩
      -- the list ascends, so what stands in front of the method has a smaller position
      have hascending := hm.ascending htype
      rw [hsplit, List.pairwise_append] at hascending
      have hsmaller := hascending.2.2 v hv _ List.mem_cons_self
      rw [hposition] at hsmaller
      have hv' : v ∈ type.methods := hsplit ▸ List.mem_append_left _ hv
      obtain ⟨e', he', hedeclaring⟩ := (hm.listed htype v).1 hv'
      cases he.symm.trans he'
      have hget := (List.getElem?_eq_some_iff.1 he).2
      have hnot := hbefore v.position hsmaller
      rw [hget] at hnot
      exact hnot (decide_eq_true ⟨hedeclaring, hename⟩)

/-! ### Every method in one list -/

/-- A method stands in the list of its declaring type, once, and in no other list. -/
theorem TablesAgree.once (hm : m.TablesAgree) (hd : m.method? u = some d) :
    ∃ type, m.type? d.declaringType = some type ∧ type.methods.count u = 1 ∧
      ∀ t other, m.type? t = some other → u ∈ other.methods → t = d.declaringType := by
  obtain ⟨type, htype⟩ := hm.declaring (List.mem_of_getElem? hd)
  refine ⟨type, htype, ?_, fun t other hother hu => ?_⟩
  · have hmem : u ∈ type.methods := (hm.listed htype u).2 ⟨d, hd, rfl⟩
    have hnodup : type.methods.Nodup :=
      (hm.ascending htype).imp fun hlt heq => absurd (heq ▸ hlt) (Nat.lt_irrefl _)
    exact List.count_eq_one_of_mem hnodup hmem
  · obtain ⟨d', hd', hdeclaring⟩ := (hm.listed hother u).1 hu
    cases hd.symm.trans hd'
    exact hdeclaring.symm

end Module

end Interpose
