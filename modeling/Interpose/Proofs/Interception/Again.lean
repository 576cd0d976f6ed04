import Interpose.Proofs.Interception.OneByOne
import Interpose.Proofs.Interception.Tasks

/-!
# Redirecting again

A redirected body has no calls, and a body without calls is left as it is by any redirector: the
allocator of slots is not asked for any, so the limit on slots plays no part. Redirecting methods a
second time therefore succeeds and changes nothing.
-/

namespace Interpose

/-- The method has a body, and there is no call in it. -/
def Module.Settled (m : Module) (t : MethodToken) : Prop :=
  ∃ d b, m.method? t = some d ∧ d.body = some b ∧ ∀ i ∈ b.code, i.isCall = false

/-- What is reported on a method whose body stays as it is. -/
def Module.idleReport (m : Module) (t : MethodToken) : Report :=
  let length := ((m.method? t).bind (·.body)).elim 0 (·.code.length)
  ⟨t, 0, 0, length, length⟩

/-- What is reported when a method is redirected again. -/
def Report.again (report : Report) : Report :=
  ⟨report.method, 0, 0, report.instructionsAfter, report.instructionsAfter⟩

namespace Redirector

variable {r r' : Redirector} {m m' : Module} {t : MethodToken} {ts : List MethodToken} {task : Task}
  {reports : List Report}

/-! ### Settled methods -/

theorem prepare_of_settled (r : Redirector) (h : m.Settled t) : ∃ p, (r.prepare m t).2 = .ok p := by
  obtain ⟨d, b, hd, hb, hcalls⟩ := h
  exact ⟨_, prepare_of_no_call r hd hb hcalls⟩

theorem report_of_settled (h : m.Settled t) {p : Prepared} (hp : (r.prepare m t).2 = .ok p) :
    p.report = m.idleReport t := by
  obtain ⟨d, b, hd, hb, hcalls⟩ := h
  cases hp.symm.trans (prepare_of_no_call r hd hb hcalls)
  simp only [Module.idleReport, hd, Option.bind_some, hb, Option.elim_some]
  rfl

/-- A request for settled methods leaves the module as it is. -/
theorem applied_of_settled (r : Redirector) (h : ∀ t ∈ ts, m.Settled t) : r.Applied m ts m := by
  refine ⟨rfl, .refl m, fun _ _ => rfl, fun t ht => ?_⟩
  obtain ⟨d, b, hd, hb, hcalls⟩ := h t ht
  refine ⟨_, d, prepare_of_no_call r hd hb hcalls, hd, ?_⟩
  simp only [hb, Option.map_some, commit_same]
  rw [← hb]
  exact hd

theorem Delivers.of_settled (hd : r.Delivers m ts reports m') (h : ∀ t ∈ ts, m.Settled t) :
    m' = m ∧ reports = ts.eraseDups.map m.idleReport := by
  refine ⟨hd.applied.unique (applied_of_settled r h), ?_⟩
  obtain ⟨ps, hreports, hmethods, hps⟩ := hd.prepared
  rw [hreports, ← hmethods, List.map_map]
  refine List.map_congr_left fun p hp => ?_
  have hmem : p.method ∈ ts.eraseDups := hmethods ▸ List.mem_map_of_mem hp
  exact report_of_settled (h p.method (List.mem_eraseDups.1 hmem)) (hps p hp)

theorem redirectMethod_of_settled (r : Redirector) (h : m.Settled t) :
    (r.redirectMethod m t).result = .ok (m.idleReport t) ∧ (r.redirectMethod m t).module = m := by
  obtain ⟨p, hp⟩ := prepare_of_settled r h
  obtain ⟨hresult, hm'⟩ := redirectMethod_of_prepare hp
  rw [report_of_settled h hp] at hresult
  obtain ⟨d, b, hd, hb, hcalls⟩ := h
  cases hp.symm.trans (prepare_of_no_call r hd hb hcalls)
  exact ⟨hresult, hm'.trans (commit_of_no_call hd hb _)⟩

theorem redirectMethods_of_settled (r : Redirector) (h : ∀ t ∈ ts, m.Settled t) :
    (r.redirectMethods m ts).result = .ok (ts.eraseDups.map m.idleReport) ∧
      (r.redirectMethods m ts).module = m := by
  rcases redirectMethods_cases r m ts with ⟨reports, hresult, hdelivers⟩ | ⟨e, hresult, _⟩
  · obtain ⟨hm', rfl⟩ := hdelivers.of_settled h
    exact ⟨hresult, hm'⟩
  · obtain ⟨_, front, t, back, hts, _, ht⟩ := redirectMethods_eq_error hresult
    have hmem : t ∈ ts := by
      rw [hts]
      exact List.mem_append_right front List.mem_cons_self
    obtain ⟨p, hp⟩ := prepare_of_settled r (h t hmem)
    cases hp.symm.trans ht

theorem redirectNamed_of_settled (r : Redirector) {typeName methodName : String}
    (ht : ((m.findType? typeName).bind fun type => m.findMethod? type methodName) = some t)
    (h : m.Settled t) :
    (r.redirectNamed m typeName methodName).result = .ok (.redirected (m.idleReport t)) ∧
      (r.redirectNamed m typeName methodName).module = m := by
  obtain ⟨type, htype, hmethod⟩ := Option.bind_eq_some_iff.1 ht
  obtain ⟨hresult, hm'⟩ := redirectMethod_of_settled r h
  obtain ⟨d, b, hd, hb, _⟩ := h
  have hbody : ((m.method? t).any fun d => d.body.isNone) = false := by
    rw [hd, Option.any_some, hb]
    rfl
  simp only [redirectNamed, htype, hmethod, hbody, hresult, hm']
  exact ⟨rfl, rfl⟩

/-- A task on settled methods is carried out, and leaves the module as it is. A task that names a
method finds it. -/
theorem perform_of_settled (r : Redirector) (task : Task)
    (hfound : ∀ typeName methodName, task = .named typeName methodName → task.methodsIn m ≠ [])
    (h : ∀ t ∈ task.methodsIn m, m.Settled t) :
    (r.perform m task).result =
        .ok (.redirected ((task.methodsIn m).eraseDups.map m.idleReport)) ∧
      (r.perform m task).module = m := by
  have single (t : MethodToken) : [t].eraseDups = [t] := by simp [List.eraseDups_cons]
  cases task with
  | named typeName methodName =>
    obtain ⟨t, hts⟩ := List.exists_mem_of_ne_nil _ (hfound _ _ rfl)
    have ht := Option.mem_toList.1 hts
    obtain ⟨hresult, hm'⟩ := redirectNamed_of_settled r ht (h t hts)
    simp only [perform, answering, hresult, hm', Task.methodsIn, Option.mem_def.1 ht,
      Option.toList_some, single]
    exact ⟨rfl, trivial⟩
  | method t =>
    obtain ⟨hresult, hm'⟩ := redirectMethod_of_settled r (h t (List.mem_singleton.2 rfl))
    simp only [perform, answering, hresult, hm', Task.methodsIn, single]
    exact ⟨rfl, trivial⟩
  | methods ts =>
    obtain ⟨hresult, hm'⟩ := redirectMethods_of_settled r h
    simp only [Task.methodsIn] at hresult hm'
    simp only [perform, answering, hresult, hm', Task.methodsIn]
    exact ⟨rfl, trivial⟩
  | all =>
    obtain ⟨hresult, hm'⟩ := redirectMethods_of_settled r h
    simp only [Task.methodsIn] at hresult hm'
    simp only [perform, answering, redirectAll, hresult, hm', Task.methodsIn]
    exact ⟨rfl, trivial⟩

/-! ### What is left behind is settled -/

theorem Applied.settled (h : r.Applied m ts m') (ht : t ∈ ts) : m'.Settled t := h.body_of_mem ht

theorem Applied.isSome_body (h : r.Applied m ts m') :
    m'.methods.map (·.body.isSome) = m.methods.map (·.body.isSome) := by
  refine List.ext_getElem? fun k => ?_
  rw [List.getElem?_map, List.getElem?_map]
  by_cases hk : ∃ t ∈ ts, t.position = k
  · obtain ⟨t, ht, rfl⟩ := hk
    obtain ⟨p, d, _, hd, hafter⟩ := h.redirected t ht
    rw [Module.method?] at hd hafter
    rw [hd, hafter, Option.map_some, Option.map_some, Option.isSome_map]
  · rw [h.other k fun t ht hpos => hk ⟨t, ht, hpos⟩]

theorem methodsWithBody_congr
    (h : m'.methods.map (·.body.isSome) = m.methods.map (·.body.isSome)) :
    methodsWithBody m' = methodsWithBody m := by
  have flags (m : Module) : methodsWithBody m =
      ((m.methods.map (·.body.isSome)).zipIdx.filter (·.1)).map fun p => .ofPosition p.2 := by
    rw [List.zipIdx_map, List.filter_map, List.map_map]
    rfl
  rw [flags, flags, h]

theorem Applied.methodsIn_eq (h : r.Applied m ts m') (task : Task) :
    task.methodsIn m' = task.methodsIn m := by
  cases task with
  | named typeName methodName =>
    simp only [Task.methodsIn, h.declares.findType?, h.declares.findMethod?]
  | method t => rfl
  | methods ts => rfl
  | all => exact methodsWithBody_congr h.isSome_body

theorem Delivers.map_idleReport (h : r.Delivers m ts reports m') :
    ts.eraseDups.map m'.idleReport = reports.map Report.again := by
  obtain ⟨ps, hreports, hmethods, hps⟩ := h.prepared
  rw [← hmethods, hreports, List.map_map, List.map_map]
  refine List.map_congr_left fun p hp => ?_
  have hmem : p.method ∈ ts.eraseDups := hmethods ▸ List.mem_map_of_mem hp
  obtain ⟨q, d, hq, hd, hafter⟩ := h.applied.redirected p.method (List.mem_eraseDups.1 hmem)
  cases (hps p hp).symm.trans hq
  obtain ⟨d', b, x, hd', hb, _, hx⟩ := prepare_eq_ok_iff.1 hq
  cases hd.symm.trans hd'
  simp only [Function.comp_apply, Module.idleReport, hafter, hb, Option.bind_some, Option.map_some,
    Option.elim_some, Report.again]
  rw [hx]
  rfl

theorem methodsIn_ne_nil_of_redirected {typeName methodName : String}
    (h : (r.perform m (.named typeName methodName)).result = .ok (.redirected reports)) :
    (Task.named typeName methodName).methodsIn m ≠ [] := by
  intro hnil
  simp only [Task.methodsIn, Option.toList_eq_nil_iff] at hnil
  simp only [perform, answering] at h
  rcases redirectNamed_cases r m typeName methodName with ⟨missing, hresult, _⟩ | ⟨t, ht, _⟩
  · rw [hresult] at h
    cases h
  · cases hnil.symm.trans ht

/-- Redirecting is idempotent, whatever the limits of the two redirectors. What is redirected can be
redirected again: by the same task or method by method in any list, this succeeds, changes nothing,
and reports that nothing was there to change. -/
theorem perform_again (r r' : Redirector) {m : Module} {task : Task} {reports : List Report}
    (h : (r.perform m task).result = .ok (.redirected reports)) :
    let m' := (r.perform m task).module
    (r'.perform m' task).result = .ok (.redirected (reports.map Report.again)) ∧
      (r'.perform m' task).module = m' ∧
      ∀ us, (∀ u ∈ us, u ∈ reports.map (·.method)) →
        (r'.redirectMethods m' us).result = .ok (us.eraseDups.map m'.idleReport) ∧
          (r'.redirectMethods m' us).module = m' := by
  intro m'
  rcases perform_cases r m task with ⟨reports', hresult, hdelivers⟩ | ⟨hnone, _⟩
  · cases h.symm.trans hresult
    have hsettled : ∀ t ∈ task.methodsIn m, m'.Settled t := fun t => hdelivers.applied.settled
    have hsame : task.methodsIn m' = task.methodsIn m := hdelivers.applied.methodsIn_eq task
    have hfound (typeName methodName : String) (htask : task = .named typeName methodName) :
        task.methodsIn m' ≠ [] := by
      subst htask
      exact hsame ▸ methodsIn_ne_nil_of_redirected h
    have hagain := perform_of_settled r' task hfound (hsame ▸ hsettled)
    rw [hsame, hdelivers.map_idleReport] at hagain
    refine ⟨hagain.1, hagain.2, fun us hus => redirectMethods_of_settled r' fun u hu => ?_⟩
    have hmem := hus u hu
    rw [hdelivers.map_method] at hmem
    exact hsettled u (List.mem_eraseDups.1 hmem)
  · exact absurd h (hnone reports)

/-- All methods again, and one of them three times, with no room for any local. -/
theorem perform_again_pingPong :
    let m' := (Redirector.standard.perform pingPong .all).module
    (Redirector.standard.perform pingPong .all).result =
        .ok (.redirected [⟨⟨1⟩, 2, 5, 4, 34⟩, ⟨⟨2⟩, 1, 2, 2, 14⟩]) ∧
      ((Redirector.mk 0).perform m' .all).result =
        .ok (.redirected [⟨⟨1⟩, 0, 0, 34, 34⟩, ⟨⟨2⟩, 0, 0, 14, 14⟩]) ∧
      ((Redirector.mk 0).perform m' .all).module = m' ∧
      ((Redirector.mk 0).redirectMethods m' [⟨2⟩, ⟨2⟩, ⟨2⟩]).result = .ok [⟨⟨2⟩, 0, 0, 14, 14⟩] ∧
      ((Redirector.mk 0).redirectMethods m' [⟨2⟩, ⟨2⟩, ⟨2⟩]).module = m' := by
  intro m'
  have hfirst : (Redirector.standard.perform pingPong .all).result =
      .ok (.redirected [⟨⟨1⟩, 2, 5, 4, 34⟩, ⟨⟨2⟩, 1, 2, 2, 14⟩]) := rfl
  obtain ⟨hagain, hm', heach⟩ := perform_again Redirector.standard ⟨0⟩ hfirst
  obtain ⟨hlist, hlist'⟩ := heach [⟨2⟩, ⟨2⟩, ⟨2⟩] (by simp)
  exact ⟨hfirst, hagain, hm', hlist, hlist'⟩

end Redirector

end Interpose
