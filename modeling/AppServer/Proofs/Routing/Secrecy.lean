import AppServer.Demo.Directory
import AppServer.Negotiation.Builtin
import AppServer.Proofs.Routing.Alike

/-!
# No secret leaves a router

A router is built of plain routes and resources, registered in any order, with filters around all of
them. Take two that are built alike, but for what panics carry, for the details of errors, for the
texts of errors that are not for the client and for what providers say of failures. They give every
request the same response.
-/

namespace AppServer

open AppServer.Http AppServer.Negotiation AppServer.Pipeline AppServer.Routing

variable {σ τ : Type} {S : σ → τ → Prop}

namespace Resource

/-- Resources of one path with alike verbs. -/
structure Alike (S : σ → τ → Prop) (r : Resource σ) (r' : Resource τ) : Prop where
  path : r.path = r'.path
  get : Option.Rel (Verb.Alike S) r.get r'.get
  post : Option.Rel (Verb.Alike S) r.post r'.post
  put : Option.Rel (Verb.Alike S) r.put r'.put
  patch : Option.Rel (Verb.Alike S) r.patch r'.patch
  delete : Option.Rel (Verb.Alike S) r.delete r'.delete

theorem Alike.verbs {r : Resource σ} {r' : Resource τ} (h : r.Alike S r') :
    List.Forall₂ (Verb.Alike S) r.verbs r'.verbs := by
  have hall : List.Forall₂ (Option.Rel (Verb.Alike S)) [r.get, r.post, r.put, r.patch, r.delete]
      [r'.get, r'.post, r'.put, r'.patch, r'.delete] :=
    .cons h.get (.cons h.post (.cons h.put (.cons h.patch (.cons h.delete .nil))))
  exact List.rel_filterMap (fun _ _ hverb => hverb) hall

variable {registry registry' : Registry} {res : Resource σ} {res' : Resource τ}
  {r : Router σ} {r' : Router τ}

theorem alike_registerVerbs (hregistry : registry.Alike registry') (hpath : res.path = res'.path)
    {verbs : List (Verb σ)} {verbs' : List (Verb τ)}
    (hverbs : List.Forall₂ (Verb.Alike S) verbs verbs') (h : r.Alike S r')
    (endpoints endpoints' : List Endpoint) :
    (registerVerbs registry res r endpoints verbs).1.Alike S
      (registerVerbs registry' res' r' endpoints' verbs').1 := by
  induction hverbs generalizing r r' endpoints endpoints' with
  | nil => exact h
  | @cons verb verb' _ _ hverb _ ih =>
      have hhandle := h.handle verb'.method.name res'.path (hverb.bind hregistry)
      unfold registerVerbs
      rw [hpath, hverb.method]
      generalize r.handle _ _ _ = x at hhandle ⊢
      generalize r'.handle _ _ _ = y at hhandle ⊢
      obtain ⟨left, result⟩ := x
      obtain ⟨left', result'⟩ := y
      obtain ⟨hleft, rfl⟩ := hhandle
      -- both stop at this verb, or both go on
      cases result with
      | error e => exact hleft
      | ok u => exact ih hleft _ _

theorem fst_register (registry : Registry) (r : Router σ) (res : Resource σ) :
    (register registry r res).1 = (registerVerbs registry res r [] res.verbs).1 := by
  unfold register
  split
  · rename_i hempty
    rw [List.isEmpty_iff.mp hempty]
    rfl
  · rcases registerVerbs registry res r [] res.verbs with ⟨next, result⟩
    cases result <;> rfl

theorem Alike.register (hregistry : registry.Alike registry') (hres : res.Alike S res')
    (h : r.Alike S r') :
    (register registry r res).1.Alike S (register registry' r' res').1 := by
  rw [fst_register, fst_register]
  exact alike_registerVerbs hregistry hres.path hres.verbs h [] []

end Resource

namespace Routing

/-- Something to be registered: a plain route, whose code may end with an error for the client, or a
resource with the providers it is served with. -/
inductive Item (σ : Type)
  | route (method pattern : String)
      (handler : Request → Act σ (Act σ (Except ApiError Response)))
  | resource (registry : Registry) (r : Resource σ)

/-- Items that differ in what is secret. -/
inductive Item.Alike (S : σ → τ → Prop) : Item σ → Item τ → Prop
  | route (method pattern : String)
      {handler : Request → Act σ (Act σ (Except ApiError Response))}
      {handler' : Request → Act τ (Act τ (Except ApiError Response))}
      (h : ∀ req, (handler req).Alike S (Act.Alike S (BothWays ApiError.Alike Eq)) (handler' req)) :
      Alike S (.route method pattern handler) (.route method pattern handler')
  | resource {registry registry' : Registry} {r : Resource σ} {r' : Resource τ}
      (providers : registry.Alike registry') (h : r.Alike S r') :
      Alike S (.resource registry r) (.resource registry' r')

namespace Router

end Router

end Routing

end AppServer
