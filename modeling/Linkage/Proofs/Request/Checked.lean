import Linkage.Proofs.Request.Checks

namespace Linkage

theorem Identifier.ofParams_ne_nil {parameter : String} {texts : List String}
    {ids : List Identifier} (h : ofParams parameter texts = .ok ids) (ht : texts ≠ []) :
    ids ≠ [] := by
  have hlen : texts.length = ids.length := (mapM_eq_ok.mp h).length_eq
  intro hnil
  rw [hnil] at hlen
  exact ht (List.length_eq_zero_iff.mp hlen)

namespace PathRequest

variable {server : Server} {p : PathParams} {r : PathRequest}

theorem ofParams_isClient {fault : Fault} (h : ofParams server p = .error fault) :
    fault.isClient = true := (ofParams_makes server p).isClient h

theorem ofParams_eq_ok : ofParams server p = .ok r ↔
    endpoint "from" p.origin = .ok r.origin ∧ endpoint "to" p.target = .ok r.target ∧
    r.origin.kind = r.target.kind ∧ avoided r.origin r.target p.avoid = .ok r.avoid ∧
    requiredSources server p.sources = .ok r.sources ∧
    Limit.maxDegrees.check p.maxDegrees = .ok r.maxDegrees ∧
    p.forbidAvoided = r.forbidAvoided ∧ p.withRaw = r.withRaw := by
  unfold ofParams
  constructor
  · intro h
    obtain ⟨origin, horigin, h⟩ := Except.bind_eq_ok.mp h
    obtain ⟨target, htarget, h⟩ := Except.bind_eq_ok.mp h
    split at h
    · cases h
    · rename_i hkind
      obtain ⟨avoid, havoid, h⟩ := Except.bind_eq_ok.mp h
      obtain ⟨sources, hsources, h⟩ := Except.bind_eq_ok.mp h
      obtain ⟨maxDegrees, hmax, h⟩ := Except.bind_eq_ok.mp h
      cases h
      exact ⟨horigin, htarget, not_not.mp hkind, havoid, hsources, hmax, rfl, rfl⟩
  · rintro ⟨horigin, htarget, hkind, havoid, hsources, hmax, hforbid, hraw⟩
    refine Except.bind_eq_ok.mpr ⟨_, horigin, Except.bind_eq_ok.mpr ⟨_, htarget, ?_⟩⟩
    rw [if_neg (not_not.mpr hkind)]
    refine Except.bind_eq_ok.mpr ⟨_, havoid, Except.bind_eq_ok.mpr ⟨_, hsources, ?_⟩⟩
    refine Except.bind_eq_ok.mpr ⟨_, hmax, ?_⟩
    rw [hforbid, hraw]
    rfl

/-- Both ends and the avoided entities are named in one way. A list of avoided entities has
some. -/
structure Uniform (r : PathRequest) : Prop where
  ends : r.target.kind = r.kind
  nonempty : ∀ ids, r.avoid = some ids → ids ≠ []
  avoid : ∀ ids, r.avoid = some ids → ∀ id ∈ ids, id.kind = r.kind

theorem ofParams_uniform (h : ofParams server p = .ok r) : r.Uniform := by
  obtain ⟨_, _, hkind, havoid, _⟩ := ofParams_eq_ok.mp h
  have hlist (ids : List Identifier) (hs : r.avoid = some ids) :
      ids ≠ [] ∧ ∀ id ∈ ids, id.kind = r.kind := by
    rw [hs, avoided] at havoid
    split at havoid
    · cases havoid
    · rename_i htexts
      obtain ⟨parsed, hparsed, havoid⟩ := Except.bind_eq_ok.mp havoid
      split at havoid
      · rename_i hall
        cases havoid
        refine ⟨Identifier.ofParams_ne_nil hparsed (by simpa using htexts), fun id hid => ?_⟩
        exact beq_iff_eq.mp (List.all_eq_true.mp hall id hid)
      · cases havoid
  exact ⟨hkind.symm, fun ids hs => (hlist ids hs).1, fun ids hs => (hlist ids hs).2⟩

end PathRequest

namespace NetworkRequest

variable {p : NetworkParams} {r : NetworkRequest}

theorem ofParams_isClient {fault : Fault} (h : ofParams p = .error fault) :
    fault.isClient = true := (ofParams_makes p).isClient h

theorem ofParams_eq_ok : ofParams p = .ok r ↔
    p.entities ≠ [] ∧ Identifier.ofParams "e" p.entities = .ok r.entities ∧
    Identifier.areConsistent r.entities = true ∧
    Limit.maxDegrees.check p.maxDegrees = .ok r.maxDegrees ∧
    Limit.buildOut.check p.buildOut = .ok r.buildOut ∧
    Limit.maxEntities.check p.maxEntities = .ok r.maxEntities ∧ p.withRaw = r.withRaw := by
  unfold ofParams
  constructor
  · intro h
    split at h
    · cases h
    · rename_i hsome
      obtain ⟨entities, hentities, h⟩ := Except.bind_eq_ok.mp h
      split at h
      · rename_i hkind
        obtain ⟨maxDegrees, hmax, h⟩ := Except.bind_eq_ok.mp h
        obtain ⟨buildOut, hbuild, h⟩ := Except.bind_eq_ok.mp h
        obtain ⟨maxEntities, hcap, h⟩ := Except.bind_eq_ok.mp h
        cases h
        exact ⟨by simpa using hsome, hentities, hkind, hmax, hbuild, hcap, rfl⟩
      · cases h
  · rintro ⟨hsome, hentities, hkind, hmax, hbuild, hcap, hraw⟩
    rw [if_neg (by simpa using hsome)]
    refine Except.bind_eq_ok.mpr ⟨_, hentities, ?_⟩
    rw [if_pos hkind]
    refine Except.bind_eq_ok.mpr ⟨_, hmax, Except.bind_eq_ok.mpr ⟨_, hbuild, ?_⟩⟩
    refine Except.bind_eq_ok.mpr ⟨_, hcap, ?_⟩
    rw [hraw]
    rfl

/-- A checked request has members, and all of them are named in one way. -/
theorem ofParams_uniform (h : ofParams p = .ok r) :
    ∃ kind, r.kind? = some kind ∧ ∀ id ∈ r.entities, id.kind = kind := by
  obtain ⟨hsome, hentities, hkind, _⟩ := ofParams_eq_ok.mp h
  obtain ⟨first, rest, hr⟩ :=
    List.exists_cons_of_ne_nil (Identifier.ofParams_ne_nil hentities hsome)
  rw [hr, Identifier.areConsistent] at hkind
  refine ⟨first.kind, by rw [kind?, hr]; rfl, fun id hid => ?_⟩
  rw [hr] at hid
  rcases List.mem_cons.mp hid with rfl | hid
  · rfl
  · exact beq_iff_eq.mp (List.all_eq_true.mp hkind id hid)

end NetworkRequest

end Linkage
