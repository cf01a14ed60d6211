import AppServer.Negotiation.Provider

/-!
# A chosen writer is on offer

Whatever a client accepts, a writer is chosen for one of the media types that its provider offers,
and the provider is registered.
-/

namespace AppServer.Negotiation.Registry

variable {registry : Registry} {accept : Accept} {chosen : Selected}

/-- A step of the scan keeps the choice or takes the offer. -/
theorem improve_cases (accept : Accept) (best : Option (Rank × Selected)) (offer : Selected) :
    improve accept best offer = best ∨ ∃ rank, improve accept best offer = some (rank, offer) := by
  unfold improve
  cases rank? accept offer.mediaType with
  | none => exact .inl rfl
  | some rank =>
      cases best with
      | none => exact .inr ⟨rank, rfl⟩
      | some top =>
          dsimp only
          split
          · exact .inr ⟨rank, rfl⟩
          · exact .inl rfl

/-- The scan ends with an offer, or with what it started from. -/
theorem mem_of_foldl_improve {offers : List Selected} {best : Option (Rank × Selected)} {rank : Rank}
    (h : offers.foldl (improve accept) best = some (rank, chosen)) :
    chosen ∈ offers ∨ best = some (rank, chosen) := by
  induction offers generalizing best with
  | nil => exact .inr h
  | cons offer rest ih =>
      rcases ih h with hmem | hbest
      · exact .inl (List.mem_cons_of_mem _ hmem)
      · rcases improve_cases accept best offer with hkept | ⟨rank', hnew⟩
        · exact .inr (hkept.symm.trans hbest)
        · rw [hnew] at hbest
          cases hbest
          exact .inl List.mem_cons_self

theorem mem_offers {p : Provider} {mediaType : String} (hp : p ∈ registry.providers)
    (ht : mediaType ∈ p.produces) : ⟨p, mediaType⟩ ∈ registry.offers :=
  List.mem_flatMap.mpr ⟨p, hp, List.mem_map.mpr ⟨mediaType, ht, rfl⟩⟩

theorem mem_offers_of_defaultOf {p : Provider} (hp : p ∈ registry.providers)
    (h : defaultOf p = .ok chosen) : chosen ∈ registry.offers := by
  unfold defaultOf at h
  split at h
  · cases h
  · rename_i mediaType rest heq
    cases h
    apply mem_offers hp
    rw [heq]
    exact List.mem_cons_self

theorem mem_offers_of_selectWriter {header : Option String}
    (h : registry.selectWriter header = .ok (.ok chosen)) : chosen ∈ registry.offers := by
  unfold selectWriter at h
  split at h
  · cases h
  · rename_i first rest hproviders
    have hfirst : first ∈ registry.providers := by
      rw [hproviders]
      exact List.mem_cons_self
    split at h
    · exact mem_offers_of_defaultOf hfirst (Except.ok.inj h)
    · rename_i raw _
      split at h
      · exact mem_offers_of_defaultOf hfirst (Except.ok.inj h)
      · cases hparse : Accept.parse raw with
        | error p => simp [hparse, bind, Except.bind] at h
        | ok accept =>
            simp only [hparse, bind, Except.bind] at h
            split at h
            · exact mem_offers_of_defaultOf hfirst (Except.ok.inj h)
            · split at h
              · rename_i hscan
                cases h
                exact (mem_of_foldl_improve hscan).resolve_right (by simp)
              · cases h

end AppServer.Negotiation.Registry
