import Mathlib.Data.List.Nodup
import Interpose.Interception.Redirector
import Interpose.Proofs.Execution.Identities

/-!
# Redirecting methods together

A request for several methods (`rewrite_methods`) prepares each of them once, as the module was
before the request, and puts all of them in place. What it leaves behind depends on the methods that
were named, not on their order, and nothing else of the module changes. A request for all methods
(`rewrite_all`) gives every method with a body the redirected form of that body.
-/

namespace Interpose

/-- A module in which every method with a body has its redirected form. -/
structure Module.AllRedirected (m : Module) (limit : Nat) (m' : Module) : Prop where
  declares : m.Declares m'
  native {t : MethodToken} {d : MethodDef} (hd : m.method? t = some d) (hb : d.body = none) :
    m'.method? t = some d
  body {t : MethodToken} {d : MethodDef} {b : Body} (hd : m.method? t = some d)
    (hb : d.body = some b) :
    ∃ r, m.redirectBody (m.qualifiedName t) b limit = .ok r ∧
      m'.method? t = some { d with body := some (r.commit b) }

namespace Redirector

variable {r : Redirector} {m m' : Module} {t : MethodToken} {p : Prepared}
  {ps ready : List Prepared} {ts : List MethodToken} {journal : List JournalLine}

/-! ### Preparing -/

def reportOf (t : MethodToken) (b : Body) (x : Redirected) : Report where
  method := t
  callSites := x.callSites.length
  localsAdded := x.newLocals.length
  instructionsBefore := b.code.length
  instructionsAfter := x.code.length

theorem prepare_eq_ok_iff : (r.prepare m t).2 = .ok p ↔ ∃ d b x, m.method? t = some d ∧
    d.body = some b ∧ m.redirectBody (m.qualifiedName t) b r.maxLocals = .ok x ∧
      p = ⟨t, x, reportOf t b x⟩ := by
  unfold prepare
  cases hd : m.method? t with
  | none => exact ⟨fun h => (nomatch h), fun ⟨_, _, _, h, _⟩ => (nomatch h)⟩
  | some d =>
    cases hb : d.body with
    | none =>
      simp only [hb]
      refine ⟨fun h => (nomatch h), fun ⟨d', b', _, hd', hb', _⟩ => ?_⟩
      cases hd'
      exact nomatch hb.symm.trans hb'
    | some b =>
      simp only [hb]
      have hredirected : m.redirectBody (m.qualifiedName t) b r.maxLocals =
          (m.attemptBody (m.qualifiedName t) b r.maxLocals).result := rfl
      constructor
      · intro h
        cases hx : (m.attemptBody (m.qualifiedName t) b r.maxLocals).result with
        | error e => rw [hx] at h; cases h
        | ok x =>
          rw [hx] at h hredirected
          cases h
          exact ⟨d, b, x, rfl, hb, hredirected, rfl⟩
      · intro ⟨d', b', x, hd', hb', hx, hp⟩
        cases hd'
        cases hb.symm.trans hb'
        rw [← hredirected, hx, hp]
        rfl

theorem method_of_prepare (h : (r.prepare m t).2 = .ok p) : p.method = t := by
  obtain ⟨d, b, x, _, _, _, hp⟩ := prepare_eq_ok_iff.1 h
  rw [hp]

theorem any_method_eq_true_iff :
    ready.any (·.method = t) = true ↔ t ∈ ready.map Prepared.method := by
  rw [List.any_eq_true, List.mem_map]
  simp only [decide_eq_true_eq]

/-- Those of a list of methods that are not ready, each once, in the order in which they come. -/
def pending (ready : List Prepared) (ts : List MethodToken) : List MethodToken :=
  (ts.filter fun t => !ready.any (·.method = t)).eraseDups

theorem pending_cons_of_ready (h : ready.any (·.method = t) = true) (ts : List MethodToken) :
    pending ready (t :: ts) = pending ready ts := by
  simp only [pending, List.filter_cons, h]
  rfl

theorem pending_cons_of_new (h : ready.any (·.method = t) = false) (hp : p.method = t)
    (ts : List MethodToken) : pending ready (t :: ts) = t :: pending (p :: ready) ts := by
  have hfilter : (ts.filter fun u => !ready.any (·.method = u)).filter (fun u => !u == t) =
      ts.filter fun u => !(p :: ready).any (·.method = u) := by
    rw [List.filter_filter]
    refine List.filter_congr fun u _ => ?_
    have hsame : (u == t) = decide (p.method = u) := by
      rw [hp]
      exact decide_eq_decide.2 eq_comm
    rw [List.any_cons, Bool.not_or, hsame]
  simp only [pending, List.filter_cons, h]
  rw [← hfilter]
  exact List.eraseDups_cons

/-- A request that can be prepared has prepared each method once, in order. -/
theorem prepareAll_eq_ok (h : (r.prepareAll m journal ready ts).2 = .ok ps) :
    ∃ later, ps = ready.reverse ++ later ∧ later.map Prepared.method = pending ready ts ∧
      ∀ p ∈ later, (r.prepare m p.method).2 = .ok p := by
  induction ts generalizing journal ready with
  | nil =>
    cases h
    exact ⟨[], (List.append_nil _).symm, rfl, fun p hp => (nomatch hp)⟩
  | cons t ts ih =>
    unfold prepareAll at h
    cases hready : ready.any (·.method = t) with
    | true =>
      rw [hready, if_pos rfl] at h
      rw [pending_cons_of_ready hready]
      exact ih h
    | false =>
      rw [hready, if_neg Bool.false_ne_true] at h
      cases hp : r.prepare m t with
      | mk lines result =>
        rw [hp] at h
        cases result with
        | error e => cases h
        | ok p =>
          have hprepared : (r.prepare m t).2 = .ok p := congrArg Prod.snd hp
          have hmethod := method_of_prepare hprepared
          obtain ⟨later, hps, hlater, hall⟩ := ih h
          refine ⟨p :: later, ?_, ?_, ?_⟩
          · rw [hps, List.reverse_cons, List.append_assoc]
            rfl
          · rw [pending_cons_of_new hready hmethod, List.map_cons, hlater, hmethod]
          · exact List.forall_mem_cons.2 ⟨hmethod.symm ▸ hprepared, hall⟩

/-- A request that cannot be prepared names a first method that cannot be. -/
theorem prepareAll_eq_error {e : RedirectError}
    (h : (r.prepareAll m journal ready ts).2 = .error e)
    (hready : ∀ p ∈ ready, (r.prepare m p.method).2 = .ok p) :
    ∃ front t back, ts = front ++ t :: back ∧ (∀ u ∈ front, ∃ p, (r.prepare m u).2 = .ok p) ∧
      (r.prepare m t).2 = .error e := by
  induction ts generalizing journal ready with
  | nil => cases h
  | cons t ts ih =>
    have later {ready : List Prepared} {journal : List JournalLine}
        (h : (r.prepareAll m journal ready ts).2 = .error e)
        (hready : ∀ p ∈ ready, (r.prepare m p.method).2 = .ok p)
        (ht : ∃ p, (r.prepare m t).2 = .ok p) :
        ∃ front u back, t :: ts = front ++ u :: back ∧
          (∀ u ∈ front, ∃ p, (r.prepare m u).2 = .ok p) ∧ (r.prepare m u).2 = .error e := by
      obtain ⟨front, u, back, hts, hfront, hu⟩ := ih h hready
      refine ⟨t :: front, u, back, by rw [hts]; rfl, ?_, hu⟩
      exact List.forall_mem_cons.2 ⟨ht, hfront⟩
    unfold prepareAll at h
    split at h
    · rename_i hmem
      obtain ⟨p, hp, hmethod⟩ := List.mem_map.1 (any_method_eq_true_iff.1 hmem)
      exact later h hready ⟨p, hmethod ▸ hready p hp⟩
    · cases hp : r.prepare m t with
      | mk lines result =>
        have hprepared : (r.prepare m t).2 = result := congrArg Prod.snd hp
        rw [hp] at h
        cases result with
        | error e' =>
          cases h
          exact ⟨[], t, ts, rfl, fun u hu => (nomatch hu), hprepared⟩
        | ok p =>
          refine later h (List.forall_mem_cons.2 ⟨?_, hready⟩) ⟨p, hprepared⟩
          rw [method_of_prepare hprepared]
          exact hprepared

/-! ### Putting in place -/

theorem declares_commit (m : Module) (p : Prepared) : m.Declares (commit m p).2 := by
  unfold commit
  split
  · exact .refl m
  · exact m.declares_setBody _ _

theorem name_commit (m : Module) (p : Prepared) : (commit m p).2.name = m.name := by
  unfold commit
  split <;> rfl

theorem getElem?_methods_commit (m : Module) (p : Prepared) (k : Nat) :
    (commit m p).2.methods[k]? = (m.methods[k]?).map fun d =>
      if p.method.position = k then { d with body := d.body.map p.redirected.commit } else d := by
  unfold commit
  cases hbody : (m.method? p.method).bind (·.body) with
  | none =>
    simp only
    cases hd : m.methods[k]? with
    | none => rfl
    | some d =>
      by_cases hk : p.method.position = k
      · rw [Module.method?, hk, hd, Option.bind_some] at hbody
        obtain ⟨type, name, s, body⟩ := d
        cases hbody
        rw [Option.map_some, if_pos hk]
        rfl
      · rw [Option.map_some, if_neg hk]
  | some b =>
    simp only [Module.setBody, Module.modifyMethod, List.getElem?_modify]
    cases hd : m.methods[k]? with
    | none => rfl
    | some d =>
      by_cases hk : p.method.position = k
      · rw [Module.method?, hk, hd, Option.bind_some] at hbody
        simp [hk, hbody]
      · simp [hk]

/-- What a request for some methods of a module leaves behind. -/
structure Applied (r : Redirector) (m : Module) (ts : List MethodToken) (m' : Module) : Prop where
  name : m'.name = m.name
  declares : m.Declares m'
  other (k : Nat) (hk : ∀ t ∈ ts, t.position ≠ k) : m'.methods[k]? = m.methods[k]?
  redirected (t : MethodToken) (ht : t ∈ ts) : ∃ p d, (r.prepare m t).2 = .ok p ∧
    m.method? t = some d ∧
      m'.method? t = some { d with body := d.body.map p.redirected.commit }

namespace Applied

theorem nil : r.Applied m [] m :=
  ⟨rfl, .refl m, fun _ _ => rfl, fun _ ht => (nomatch ht)⟩

theorem congr {us : List MethodToken} (h : r.Applied m ts m') (hus : ∀ t, t ∈ us ↔ t ∈ ts) :
    r.Applied m us m' :=
  ⟨h.name, h.declares, fun k hk => h.other k fun t ht => hk t ((hus t).2 ht),
    fun t ht => h.redirected t ((hus t).1 ht)⟩

theorem unique {m'' : Module} (h : r.Applied m ts m') (h' : r.Applied m ts m'') : m' = m'' := by
  have hmethods : m'.methods = m''.methods := by
    refine List.ext_getElem? fun k => ?_
    by_cases hk : ∃ t ∈ ts, t.position = k
    · obtain ⟨t, ht, hk⟩ := hk
      obtain ⟨p, d, hp, hd, hm'⟩ := h.redirected t ht
      obtain ⟨p', d', hp', hd', hm''⟩ := h'.redirected t ht
      cases hp.symm.trans hp'
      cases hd.symm.trans hd'
      rw [Module.method?, hk] at hm' hm''
      rw [hm', hm'']
    · have hnone : ∀ t ∈ ts, t.position ≠ k := fun t ht hpos => hk ⟨t, ht, hpos⟩
      rw [h.other k hnone, h'.other k hnone]
  have hname : m'.name = m''.name := h.name.trans h'.name.symm
  have htypes : m'.types = m''.types := h.declares.types.trans h'.declares.types.symm
  cases m'
  cases m''
  simp_all

/-- A method is as it was unless it was named, and then it has got its new body. -/
theorem getElem?_cases (h : r.Applied m ts m') {k : Nat} {d' : MethodDef}
    (hk : m'.methods[k]? = some d') :
    ((∀ t ∈ ts, t.position ≠ k) ∧ m.methods[k]? = some d') ∨
    ∃ method d b x, m.methods[k]? = some d ∧ d.body = some b ∧
      m.redirectBody method b r.maxLocals = .ok x ∧ d' = { d with body := some (x.commit b) } := by
  by_cases hts : ∃ t ∈ ts, t.position = k
  · obtain ⟨t, ht, rfl⟩ := hts
    obtain ⟨p, d, hp, hd, hafter⟩ := h.redirected t ht
    obtain ⟨d₀, b, x, hd₀, hb, hx, hpx⟩ := prepare_eq_ok_iff.1 hp
    cases hd.symm.trans hd₀
    cases hk.symm.trans hafter
    refine .inr ⟨_, d, b, x, hd, hb, hx, ?_⟩
    rw [hb, hpx]
    rfl
  · have hnone : ∀ t ∈ ts, t.position ≠ k := fun t ht hpos => hts ⟨t, ht, hpos⟩
    rw [h.other k hnone] at hk
    exact .inl ⟨hnone, hk⟩

theorem commit (h : r.Applied m ts m') (hp : (r.prepare m t).2 = .ok p) (ht : t ∉ ts) :
    r.Applied m (t :: ts) (Redirector.commit m' p).2 := by
  have hmethod := method_of_prepare hp
  have apart : ∀ u ∈ ts, u.position ≠ t.position := by
    intro u hu hpos
    rw [MethodToken.eq_of_position_eq hpos] at hu
    exact ht hu
  refine ⟨?_, ?_, ?_, ?_⟩
  · rw [name_commit, h.name]
  · exact h.declares.trans (declares_commit m' p)
  · intro k hk
    obtain ⟨hkt, hkts⟩ := List.forall_mem_cons.1 hk
    rw [getElem?_methods_commit, hmethod, h.other k hkts]
    simp only [if_neg hkt, Option.map_id']
  · refine List.forall_mem_cons.2 ⟨?_, ?_⟩
    · obtain ⟨d, b, x, hd, hb, hx, _⟩ := prepare_eq_ok_iff.1 hp
      refine ⟨p, d, hp, hd, ?_⟩
      have hsame : m'.methods[t.position]? = some d := (h.other t.position apart).trans hd
      rw [Module.method?, getElem?_methods_commit, hmethod, hsame, Option.map_some, if_pos rfl]
    · intro u hu
      obtain ⟨q, d, hq, hd, hm'⟩ := h.redirected u hu
      refine ⟨q, d, hq, hd, ?_⟩
      rw [Module.method?] at hm'
      rw [Module.method?, getElem?_methods_commit, hmethod, hm', Option.map_some,
        if_neg (Ne.symm (apart u hu))]

theorem commitAll (h : r.Applied m ts m') (hps : ∀ p ∈ ps, (r.prepare m p.method).2 = .ok p)
    (hnodup : (ps.map Prepared.method).Nodup) (hapart : ∀ p ∈ ps, p.method ∉ ts)
    (journal : List JournalLine) :
    r.Applied m ((ps.map Prepared.method).reverse ++ ts)
      (Redirector.commitAll journal m' ps).2 := by
  induction ps generalizing ts m' journal with
  | nil => exact h
  | cons p ps ih =>
    rw [List.map_cons, List.nodup_cons] at hnodup
    obtain ⟨hp, hps⟩ := List.forall_mem_cons.1 hps
    obtain ⟨hpts, hapart⟩ := List.forall_mem_cons.1 hapart
    have hrest : ∀ q ∈ ps, q.method ∉ p.method :: ts := by
      intro q hq hmem
      rcases List.mem_cons.1 hmem with hsame | hmem
      · exact hnodup.1 (hsame ▸ List.mem_map_of_mem hq)
      · exact hapart q hq hmem
    have hall := ih (h.commit hp hpts) hps hnodup.2 hrest (journal ++ (Redirector.commit m' p).1)
    rw [List.map_cons, List.reverse_cons, List.append_assoc]
    exact hall

end Applied

/-! ### One method -/

theorem redirectMethod_of_prepare (h : (r.prepare m t).2 = .ok p) :
    (r.redirectMethod m t).result = .ok p.report ∧
      (r.redirectMethod m t).module = (commit m p).2 := by
  unfold redirectMethod
  cases hp : r.prepare m t with
  | mk journal result =>
    rw [hp] at h
    cases h
    exact ⟨rfl, rfl⟩

theorem redirectMethod_of_prepare_error {e : RedirectError} (h : (r.prepare m t).2 = .error e) :
    (r.redirectMethod m t).result = .error e ∧ (r.redirectMethod m t).module = m := by
  unfold redirectMethod
  cases hp : r.prepare m t with
  | mk journal result =>
    rw [hp] at h
    cases h
    exact ⟨rfl, rfl⟩

theorem redirectMethod_eq_ok_iff {report : Report} :
    (r.redirectMethod m t).result = .ok report ↔
      ∃ p, (r.prepare m t).2 = .ok p ∧ p.report = report := by
  cases hp : (r.prepare m t).2 with
  | error e =>
    rw [(redirectMethod_of_prepare_error hp).1]
    exact ⟨fun h => (nomatch h), fun ⟨_, h, _⟩ => (nomatch h)⟩
  | ok p =>
    rw [(redirectMethod_of_prepare hp).1]
    constructor
    · intro h
      exact ⟨p, rfl, Except.ok.inj h⟩
    · intro ⟨q, hq, hreport⟩
      rw [Except.ok.inj hq, hreport]

theorem redirectMethod_eq_error_iff {e : RedirectError} :
    (r.redirectMethod m t).result = .error e ↔ (r.prepare m t).2 = .error e := by
  cases hp : (r.prepare m t).2 with
  | error e' => rw [(redirectMethod_of_prepare_error hp).1]; simp
  | ok p => rw [(redirectMethod_of_prepare hp).1]; simp

/-! ### Several methods -/

theorem nodup_eraseDups (ts : List MethodToken) : ts.eraseDups.Nodup := by
  induction hn : ts.length using Nat.strongRecOn generalizing ts with
  | ind n ih =>
    cases ts with
    | nil => exact List.nodup_nil
    | cons t ts =>
      have hshort : (ts.filter fun u => !u == t).length < n := by
        have hle := List.length_filter_le (fun u => !u == t) ts
        rw [List.length_cons] at hn
        omega
      rw [List.eraseDups_cons, List.nodup_cons]
      refine ⟨?_, ih _ hshort _ rfl⟩
      simp [List.mem_eraseDups]

theorem pending_nil (ts : List MethodToken) : pending [] ts = ts.eraseDups := by
  simp [pending]

theorem redirectMethods_eq_ok {reports : List Report}
    (h : (r.redirectMethods m ts).result = .ok reports) :
    r.Applied m ts (r.redirectMethods m ts).module ∧
      ∃ ps : List Prepared, reports = ps.map (·.report) ∧
        ps.map Prepared.method = ts.eraseDups ∧ ∀ p ∈ ps, (r.prepare m p.method).2 = .ok p := by
  unfold redirectMethods at h ⊢
  cases hready : r.prepareAll m [] [] ts with
  | mk journal result =>
    rw [hready] at h
    cases result with
    | error e => cases h
    | ok ps =>
      cases h
      obtain ⟨later, hps, hmethods, hall⟩ := prepareAll_eq_ok (congrArg Prod.snd hready)
      have hsame : ps = later := hps
      rw [pending_nil, ← hsame] at hmethods
      rw [← hsame] at hall
      have hnodup : (ps.map Prepared.method).Nodup := hmethods ▸ nodup_eraseDups ts
      have happlied := Applied.nil.commitAll hall hnodup (fun p _ => List.not_mem_nil) journal
      refine ⟨happlied.congr fun t => ?_, ps, rfl, hmethods, hall⟩
      simp [hmethods, List.mem_eraseDups]

theorem redirectMethods_eq_error {e : RedirectError}
    (h : (r.redirectMethods m ts).result = .error e) :
    (r.redirectMethods m ts).module = m ∧ ∃ front t back, ts = front ++ t :: back ∧
      (∀ u ∈ front, ∃ p, (r.prepare m u).2 = .ok p) ∧ (r.prepare m t).2 = .error e := by
  unfold redirectMethods at h ⊢
  cases hready : r.prepareAll m [] [] ts with
  | mk journal result =>
    rw [hready] at h
    cases result with
    | ok ps => cases h
    | error e' =>
      cases h
      have hfirst := prepareAll_eq_error (congrArg Prod.snd hready) (fun p hp => (nomatch hp))
      exact ⟨rfl, hfirst⟩

/-! ### All methods -/

theorem mem_methodsWithBody {d : MethodDef} (hd : m.method? t = some d)
    (hb : d.body.isSome = true) : t ∈ methodsWithBody m := by
  refine List.mem_map.2 ⟨(d, t.position), List.mem_filter.2 ⟨?_, hb⟩, t.ofPosition_position⟩
  exact List.mk_mem_zipIdx_iff_getElem?.2 hd

theorem mem_methodsWithBody_iff (hm : m.methods.length < 2 ^ 32) :
    t ∈ methodsWithBody m ↔ ∃ d, m.method? t = some d ∧ d.body.isSome = true := by
  constructor
  · intro h
    obtain ⟨⟨d, k⟩, hmem, ht⟩ := List.mem_map.1 h
    obtain ⟨hmem, hb⟩ := List.mem_filter.1 hmem
    have hd : m.methods[k]? = some d := List.mk_mem_zipIdx_iff_getElem?.1 hmem
    have hk : k < m.methods.length := (List.getElem?_eq_some_iff.1 hd).1
    have hposition : t.position = k := by
      rw [← ht]
      exact MethodToken.position_ofPosition (Nat.lt_trans hk hm)
    refine ⟨d, ?_, hb⟩
    rw [Module.method?, hposition]
    exact hd
  · rintro ⟨d, hd, hb⟩
    exact mem_methodsWithBody hd hb

theorem allRedirected_of_redirectAll {reports : List Report}
    (h : (r.redirectAll m).result = .ok reports) :
    m.AllRedirected r.maxLocals (r.redirectAll m).module := by
  have happlied := (redirectMethods_eq_ok h).1
  refine ⟨happlied.declares, fun {t d} hd hb => ?_, fun {t d b} hd hb => ?_⟩
  · refine (happlied.other t.position fun u hu hpos => ?_).trans hd
    obtain ⟨p, d', hp, hd', _⟩ := happlied.redirected u hu
    obtain ⟨d'', b, x, hd'', hb'', _⟩ := prepare_eq_ok_iff.1 hp
    rw [MethodToken.eq_of_position_eq hpos] at hd''
    cases hd.symm.trans hd''
    exact nomatch hb.symm.trans hb''
  · obtain ⟨p, d', hp, hd', hafter⟩ := happlied.redirected t (mem_methodsWithBody hd (hb ▸ rfl))
    obtain ⟨d'', b', x, hd'', hb'', hx, hpx⟩ := prepare_eq_ok_iff.1 hp
    cases hd.symm.trans hd'
    cases hd.symm.trans hd''
    cases hb.symm.trans hb''
    refine ⟨x, hx, hafter.trans ?_⟩
    rw [hb, hpx]
    rfl

end Redirector

end Interpose
