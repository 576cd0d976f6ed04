import Interpose.Proofs.Image.RoundTrip
import Interpose.Proofs.Module.Tables
import Interpose.Proofs.Interception.Tasks

/-!
# Methods asked for by name

A request by names (`rewrite_named`) walks the method list of the type that has the one name, up to
the first method that has the other, as `Module::find_method` does. Reading a module checks that
listed methods exist, not that the type which lists a method declares it. So the request finds the
declared method where lists and declarations agree on methods of that name, and only there.
-/

namespace Interpose

namespace Redirector

variable {r : Redirector} {m : Module} {t : TypeToken} {report : Report}
  {typeName methodName : String}

theorem findMethod?_of_redirectNamed
    (h : (r.redirectNamed m typeName methodName).result = .ok (.redirected report)) :
    ∃ t, m.findType? typeName = some t ∧ m.findMethod? t methodName = some report.method ∧
      m.ChangedAs [report] (r.redirectNamed m typeName methodName).module := by
  obtain ⟨missing, hresult, _⟩ | ⟨u, hfound, hresult, hmodule⟩ :=
    redirectNamed_cases r m typeName methodName
  · cases hresult.symm.trans h
  · obtain ⟨t, ht, hu⟩ := Option.bind_eq_some_iff.1 hfound
    obtain ⟨report', hreport, hdelivers⟩ | ⟨e, herror, _⟩ := redirectMethod_cases r m u
    · rw [hreport] at hresult
      obtain rfl : report' = report := Outcome.redirected.inj (Except.ok.inj (hresult.symm.trans h))
      have hmethod : report'.method = u := List.singleton_inj.1 hdelivers.map_method
      rw [hmodule, hmethod]
      exact ⟨t, ht, hu, hdelivers.changedAs⟩
    · rw [herror] at hresult
      cases hresult.symm.trans h

theorem findMethod?_of_missing {a b : String}
    (h : (r.redirectNamed m typeName methodName).result = .ok (.notFound (.method a b))) :
    ∃ t, m.findType? typeName = some t ∧ m.findMethod? t methodName = none := by
  unfold redirectNamed at h
  cases ht : m.findType? typeName with
  | none =>
    rw [ht] at h
    cases h
  | some t =>
    refine ⟨t, rfl, ?_⟩
    cases hu : m.findMethod? t methodName with
    | none => rfl
    | some u =>
      simp only [ht, hu] at h
      split at h
      · cases h
      · cases hresult : (r.redirectMethod m u).result with
        | error e =>
          rw [hresult] at h
          cases h
        | ok report =>
          rw [hresult] at h
          cases h

/-- A method that is redirected by names is the first one of its name that the type lists. It is the
one that was asked for if the type declares the methods of that name that it lists, and an answer
that the method is missing is right if the type lists the methods of that name that it declares. -/
theorem redirectNamed_hits {limits : Image.Limits} {bytes : List UInt8}
    (hread : Image.decodeWithin limits bytes = .ok m) (r : Redirector)
    (typeName methodName : String) :
    (∀ report, (r.redirectNamed m typeName methodName).result = .ok (.redirected report) →
      ∃ t type d, m.findType? typeName = some t ∧ m.type? t = some type ∧ type.name = typeName ∧
        m.method? report.method = some d ∧ d.name = methodName ∧
        (∃ before after, type.methods = before ++ report.method :: after ∧
          ∀ u ∈ before, ¬m.Named methodName u) ∧
        m.ChangedAs [report] (r.redirectNamed m typeName methodName).module ∧
        ((∀ u ∈ type.methods, m.Named methodName u → m.DeclaredOn t u) →
          d.declaringType = t ∧
            m.qualifiedName report.method = typeName ++ "::" ++ methodName)) ∧
    ∀ a b, (r.redirectNamed m typeName methodName).result = .ok (.notFound (.method a b)) →
      ∃ t type, m.findType? typeName = some t ∧ m.type? t = some type ∧ type.name = typeName ∧
        (∀ u ∈ type.methods, ¬m.Named methodName u) ∧
        ((∀ u, m.DeclaredOn t u → m.Named methodName u → u ∈ type.methods) →
          ∀ d ∈ m.methods, d.declaringType = t → d.name ≠ methodName) := by
  obtain ⟨_, hfits, _⟩ := Image.decodeWithin_eq_ok_iff.1 hread
  have htypes : m.types.length ≤ UInt32.size := Nat.le_of_lt hfits.types.1
  have hmethods : m.methods.length ≤ UInt32.size := Nat.le_of_lt hfits.methods.1
  constructor
  · intro report h
    obtain ⟨t, ht, hu, hchanged⟩ := findMethod?_of_redirectNamed h
    obtain ⟨type, htype, hname⟩ := Module.findType?_eq_some htypes ht
    obtain ⟨hnamed, before, after, hsplit, hbefore⟩ :=
      (Module.findMethod?_eq_some_iff htype).1 hu
    obtain ⟨d, hd, hdname⟩ := hnamed
    refine ⟨t, type, d, ht, htype, hname, hd, hdname, ⟨before, after, hsplit, hbefore⟩, hchanged,
      fun hagree => ?_⟩
    have hlisted : report.method ∈ type.methods := by simp [hsplit]
    obtain ⟨d', hd', hdeclaring⟩ := hagree report.method hlisted ⟨d, hd, hdname⟩
    cases hd.symm.trans hd'
    refine ⟨hdeclaring, ?_⟩
    simp only [Module.qualifiedName, hd, hdeclaring, htype, hname, hdname]
  · intro a b h
    obtain ⟨t, ht, hu⟩ := findMethod?_of_missing h
    obtain ⟨type, htype, hname⟩ := Module.findType?_eq_some htypes ht
    have hnone := (Module.findMethod?_eq_none_iff htype).1 hu
    refine ⟨t, type, ht, htype, hname, hnone, fun hagree d hd hdeclaring hdname => ?_⟩
    obtain ⟨k, hk⟩ := List.mem_iff_getElem?.1 hd
    have hlt : k < UInt32.size :=
      Nat.lt_of_lt_of_le (List.getElem?_eq_some_iff.1 hk).1 hmethods
    have hmethod := (Module.method?_ofPosition hlt).trans hk
    exact hnone _ (hagree _ ⟨d, hmethod, hdeclaring⟩ ⟨d, hmethod, hdname⟩) ⟨d, hmethod, hdname⟩

/-- A type that lists the method of another one, which lists none. -/
def crossed : Module :=
  ⟨"crossed", [⟨"A", [⟨0⟩, ⟨1⟩]⟩, ⟨"B", []⟩],
    [⟨⟨1⟩, "go", ⟨[], .void, true⟩, some ⟨[], [.op .ret]⟩⟩,
      ⟨⟨0⟩, "stay", ⟨[], .void, true⟩, some ⟨[], [.op .ret]⟩⟩]⟩

theorem redirectNamed_hits_crossed :
    Image.decodeWithin .standard (Image.encode crossed) = .ok crossed ∧
      (standard.redirectNamed crossed "A" "stay").result = .ok (.redirected ⟨⟨1⟩, 0, 0, 1, 1⟩) ∧
      crossed.qualifiedName ⟨1⟩ = "A::stay" ∧
      (standard.redirectNamed crossed "B" "stay").result =
        .ok (.notFound (.method "B" "stay")) ∧
      ∀ d ∈ crossed.methods, d.declaringType = ⟨1⟩ → d.name ≠ "stay" := by
  have hread : Image.decodeWithin .standard (Image.encode crossed) = .ok crossed := by
    decide +kernel
  have hhit : (standard.redirectNamed crossed "A" "stay").result =
      .ok (.redirected ⟨⟨1⟩, 0, 0, 1, 1⟩) := by decide +kernel
  have hmiss : (standard.redirectNamed crossed "B" "stay").result =
      .ok (.notFound (.method "B" "stay")) := by decide +kernel
  obtain ⟨t, type, _, ht, htype, _, _, _, _, _, hdeclared⟩ :=
    (redirectNamed_hits hread standard "A" "stay").1 _ hhit
  obtain ⟨t', type', ht', htype', _, _, hlisted⟩ :=
    (redirectNamed_hits hread standard "B" "stay").2 _ _ hmiss
  obtain rfl : ⟨0⟩ = t := Option.some.inj ht
  obtain rfl : ⟨1⟩ = t' := Option.some.inj ht'
  obtain rfl := Option.some.inj htype
  obtain rfl := Option.some.inj htype'
  refine ⟨hread, hhit, (hdeclared fun u hu hnamed => ?_).2, hmiss, hlisted fun u hu hnamed => ?_⟩
  · revert u
    decide +kernel
  · obtain ⟨d, hd, hdeclaring⟩ := hu
    obtain ⟨d', hd', hname⟩ := hnamed
    cases hd.symm.trans hd'
    have hother : ∀ d ∈ crossed.methods, d.declaringType = ⟨1⟩ → d.name = "go" := by decide +kernel
    exact absurd (hname.symm.trans (hother d (List.mem_of_getElem? hd) hdeclaring)) (by decide)

/-- Images are read whose types list what they do not declare and do not list what they declare. -/
theorem redirectNamed_misses :
    Image.decodeWithin .standard (Image.encode crossed) = .ok crossed ∧
      (standard.redirectNamed crossed "A" "go").result = .ok (.redirected ⟨⟨0⟩, 0, 0, 1, 1⟩) ∧
      crossed.findType? "A" = some ⟨0⟩ ∧
      (crossed.method? ⟨0⟩).map (·.declaringType) = some ⟨1⟩ ∧
      crossed.qualifiedName ⟨0⟩ = "B::go" ∧
      (standard.redirectNamed crossed "B" "go").result = .ok (.notFound (.method "B" "go")) ∧
      crossed.findType? "B" = some ⟨1⟩ ∧
      ∃ d ∈ crossed.methods, d.declaringType = ⟨1⟩ ∧ d.name = "go" := by
  decide +kernel

end Redirector

end Interpose
