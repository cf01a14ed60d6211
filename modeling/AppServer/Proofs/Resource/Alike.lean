import AppServer.Proofs.Negotiation.Writer
import AppServer.Proofs.Pipeline.Alike
import AppServer.Resource.Dispatch

/-!
# Resources that differ in what is secret

Providers are alike if they read and write the same and fail on the same, whatever they say of a
failure; verbs are alike if their methods are, up to the texts of errors that a client is not shown.
A request to alike verbs gets equal responses: every step passes on what it was given, and what is
secret ends in the log.
-/

namespace AppServer

open AppServer.Data AppServer.Http AppServer.Negotiation AppServer.Pipeline AppServer.Text

variable {σ τ : Type}

namespace Negotiation

/-- Providers that differ at most in their names and in what they say of failures. -/
structure Provider.Alike (p q : Provider) : Prop where
  produces : p.produces = q.produces
  consumes : p.consumes = q.consumes
  encode : ∀ v, Agree Eq (p.encode v) (q.encode v)
  decode : ∀ shape body, Agree Eq (p.decode shape body) (q.decode shape body)

theorem Provider.Alike.decodeAs {p q : Provider} (h : p.Alike q) (γ : Type) [OfValue γ]
    (body : ByteArray) : Agree Eq (p.decodeAs γ body) (q.decodeAs γ body) := by
  have hshape : Agree Eq (p.decodeShape (shape γ) body) (q.decodeShape (shape γ) body) := by
    refine (h.decode (shape γ) body).bind fun v v' hv => ?_
    rw [hv]
    exact Agree.refl _
  refine hshape.bind fun v v' hv => ?_
  rw [hv]
  exact Agree.refl _

/-- Choices of alike providers for one media type. -/
structure Selected.Alike (s t : Selected) : Prop where
  provider : s.provider.Alike t.provider
  mediaType : s.mediaType = t.mediaType

/-- Alike providers in the same order. -/
def Registry.Alike (r r' : Registry) : Prop :=
  List.Forall₂ Provider.Alike r.providers r'.providers

namespace Registry

variable {r r' : Registry}

theorem alike_defaultOf {p q : Provider} (h : p.Alike q) :
    BothWays Eq Selected.Alike (defaultOf p) (defaultOf q) := by
  unfold defaultOf
  rw [h.produces]
  cases q.produces with
  | nil => exact .error rfl
  | cons mediaType _ => exact .ok ⟨h, rfl⟩

theorem Alike.selectReader (h : r.Alike r') (contentType : Option String) :
    BothWays Eq Provider.Alike (r.selectReader contentType) (r'.selectReader contentType) := by
  unfold Registry.selectReader
  unfold Registry.Alike at h
  generalize r.providers = ps at h
  generalize r'.providers = qs at h
  cases h with
  | nil => exact .error rfl
  | @cons p q ps qs hpq hrest =>
      cases contentType with
      | none => exact .ok hpq
      | some value =>
          simp only [Option.map_some]
          split
          · exact .ok hpq
          · -- the scan asks only what a provider consumes
            have hfind : Option.Rel Provider.Alike
                ((p :: ps).find? fun p => p.consumes.any (sameLetters · (essence value)))
                ((q :: qs).find? fun p => p.consumes.any (sameLetters · (essence value))) :=
              rel_find? (.cons hpq hrest) fun a b hab => by rw [hab.consumes]
            generalize (p :: ps).find? _ = x at hfind ⊢
            generalize (q :: qs).find? _ = y at hfind ⊢
            cases hfind with
            | some hab => exact .ok hab
            | none => exact .error rfl

/-- Choices of alike offers with equal ranks. -/
inductive AlikeBest : Option (Rank × Selected) → Option (Rank × Selected) → Prop
  | none : AlikeBest none none
  | some (rank : Rank) {s t : Selected} (h : s.Alike t) : AlikeBest (some (rank, s)) (some (rank, t))

theorem alikeBest_improve (accept : Accept) {best best' : Option (Rank × Selected)}
    (h : AlikeBest best best') {s t : Selected} (hst : s.Alike t) :
    AlikeBest (improve accept best s) (improve accept best' t) := by
  unfold improve
  rw [hst.mediaType]
  cases rank? accept t.mediaType with
  | none => exact h
  | some rank =>
      cases h with
      | none => exact .some rank hst
      | some top hchosen =>
          show AlikeBest (if rank.above top then _ else _) (if rank.above top then _ else _)
          split
          · exact .some rank hst
          · exact .some top hchosen

theorem alikeBest_foldl (accept : Accept) {offers offers' : List Selected}
    (h : List.Forall₂ Selected.Alike offers offers') {best best' : Option (Rank × Selected)}
    (hbest : AlikeBest best best') :
    AlikeBest (offers.foldl (improve accept) best) (offers'.foldl (improve accept) best') := by
  induction h generalizing best best' with
  | nil => exact hbest
  | cons hst _ ih => exact ih (alikeBest_improve accept hbest hst)

theorem Alike.offers (h : r.Alike r') : List.Forall₂ Selected.Alike r.offers r'.offers := by
  unfold Registry.offers
  refine List.rel_flatMap h ?_
  intro p q hpq
  show List.Forall₂ Selected.Alike (p.produces.map (Selected.mk p)) (q.produces.map (Selected.mk q))
  rw [hpq.produces]
  generalize q.produces = types
  induction types with
  | nil => exact .nil
  | cons mediaType types ih => exact .cons ⟨hpq, rfl⟩ ih

theorem Alike.selectWriter (h : r.Alike r') (accept : Option String) :
    BothWays Eq (BothWays Eq Selected.Alike) (r.selectWriter accept) (r'.selectWriter accept) := by
  have hoffers := h.offers
  unfold Registry.selectWriter
  unfold Registry.Alike at h
  generalize r.providers = ps at h
  generalize r'.providers = qs at h
  cases h with
  | nil => exact .ok (.error rfl)
  | @cons p q ps qs hpq hrest =>
      have hdefault := alike_defaultOf hpq
      cases accept with
      | none => exact .ok hdefault
      | some header =>
          simp only [Option.map_some]
          split
          · exact .ok hdefault
          · cases Accept.parse (trimmed header) with
            | error p => exact .error rfl
            | ok accept =>
                simp only [bind, Except.bind]
                split
                · exact .ok hdefault
                · have hbest := alikeBest_foldl accept hoffers .none
                  generalize List.foldl _ none r.offers = x at hbest ⊢
                  generalize List.foldl _ none r'.offers = y at hbest ⊢
                  cases hbest with
                  | none => exact .ok (.error rfl)
                  | some rank hst => exact .ok (.ok hst)

end Registry

end Negotiation

namespace Resource

variable {S : σ → τ → Prop}

/-- Errors that a client cannot tell apart: equal but for the detail, or both of another kind. -/
inductive DomainError.Alike : DomainError → DomainError → Prop
  | api {e e' : ApiError} (h : e.Alike e') : Alike (.api e) (.api e')
  | other (text text' : String) : Alike (.other text) (.other text')

inductive Failure.Alike : Failure → Failure → Prop
  | decode (e e' : ProviderError) : Alike (.decode e) (.decode e')
  | domain {d d' : DomainError} (h : d.Alike d') : Alike (.domain d) (.domain d')

structure BodyInput.Alike (i i' : BodyInput) : Prop where
  provider : i.provider.Alike i'.provider
  bytes : i.bytes = i'.bytes

/-- Verbs that are called alike. -/
structure Verb.Alike (S : σ → τ → Prop) (v : Verb σ) (v' : Verb τ) : Prop where
  method : v.method = v'.method
  takesBody : v.takesBody = v'.takesBody
  call : ∀ ctx input input', Option.Rel BodyInput.Alike input input' →
    (v.call ctx input).Alike S (BothWays Failure.Alike Eq) (v'.call ctx input')

theorem alike_domainError {d d' : DomainError} (h : d.Alike d') :
    Act.Alike S Eq (domainError d : Act σ Response) (domainError d' : Act τ Response) := by
  cases h with
  | other text text' => exact .log_left _ (.log_right _ (.pure rfl))
  | @api e e' he =>
      have hresponse : Act.Alike S Eq (pure e.response : Act σ Response)
          (pure e'.response : Act τ Response) :=
        .pure he.response_eq
      -- only one of the two may have a detail to log
      cases hdetail : e.internal <;> cases hdetail' : e'.internal <;>
        simp only [domainError, hdetail, hdetail']
      · exact hresponse
      · exact hresponse.log_right _
      · exact hresponse.log_left _
      · exact (hresponse.log_right _).log_left _

theorem alike_respond {registry registry' : Registry} (h : registry.Alike registry')
    (accept : Option String) (entity : Value) :
    Act.Alike S Eq (respond registry accept entity : Act σ Response)
      (respond registry' accept entity : Act τ Response) := by
  have hwriter := h.selectWriter accept
  unfold respond
  cases hx : registry.selectWriter accept with
  | error p =>
      have hquiet := Registry.dropped_of_selectWriter hx
      rw [hx] at hwriter
      generalize registry'.selectWriter accept = y at hwriter
      cases hwriter with
      | error heq => exact heq ▸ .raise ⟨p, hquiet⟩ ⟨p, hquiet⟩
  | ok result =>
      rw [hx] at hwriter
      generalize registry'.selectWriter accept = y at hwriter
      cases hwriter with
      | ok hresult =>
          cases hresult with
          | error he => exact .pure (by rw [he])
          | @ok s t hst =>
              have hbytes := hst.provider.encode entity
              dsimp only
              generalize s.provider.encode entity = x at hbytes
              generalize t.provider.encode entity = y at hbytes
              cases hbytes with
              | error => exact .log_left _ (.log_right _ (.pure rfl))
              | ok heq =>
                  dsimp only
                  rw [heq, hst.mediaType]
                  unfold entityResponse
                  split
                  · exact .pure rfl
                  · exact .raise ⟨.text invalidField, rfl⟩ ⟨.text invalidField, rfl⟩

theorem alike_bodyInput {registry registry' : Registry} (h : registry.Alike registry')
    {v : Verb σ} {v' : Verb τ} (hv : v.Alike S v') (req : Request) :
    BothWays Eq (Option.Rel BodyInput.Alike) (bodyInput registry v req)
      (bodyInput registry' v' req) := by
  unfold bodyInput
  rw [hv.takesBody]
  split
  · cases contentType? req.headers with
    | error e => exact .error rfl
    | ok declared =>
        exact (h.selectReader declared).bind fun p q hpq => .ok (.some ⟨hpq, rfl⟩)
  · exact .ok .none

/-- Alike verbs give every request the same response. -/
theorem alike_dispatch {registry registry' : Registry} (h : registry.Alike registry')
    {v : Verb σ} {v' : Verb τ} (hv : v.Alike S v') (req : Request) :
    Act.Alike S Eq (dispatch registry v req) (dispatch registry' v' req) := by
  have hinput := alike_bodyInput h hv req
  unfold dispatch
  generalize bodyInput registry v req = x at hinput
  generalize bodyInput registry' v' req = y at hinput
  cases hinput with
  | error he => exact .pure (by rw [he])
  | ok hrel =>
      refine (hv.call _ _ _ hrel).bind fun result result' hresult => ?_
      cases hresult with
      | ok heq =>
          rw [heq]
          exact alike_respond h _ _
      | error he =>
          cases he with
          | decode => exact .log_left _ (.log_right _ (.pure rfl))
          | domain hd => exact alike_domainError hd

theorem Verb.Alike.bind {registry registry' : Registry} (h : registry.Alike registry')
    {v : Verb σ} {v' : Verb τ} (hv : v.Alike S v') :
    (bind registry v).Alike S (bind registry' v') :=
  fun req => .pure (alike_dispatch h hv req)

end Resource

end AppServer
