import AppServer.Http.ApiError
import AppServer.Proofs.Json.Objects

/-!
# What a client sees of an error

The response to an error is a JSON text with the kind and the message of the error. So a client can
tell two errors apart unless they differ in nothing but the detail for the log.
-/

namespace AppServer.Http.ApiError

open AppServer.Text AppServer.Json AppServer.Json.Tree

/-- What a body says of the error. -/
def detailMembers (e : ApiError) : List Member :=
  [.ofText "type" e.kind, .ofText "message" e.message]

/-- The one member of a body. -/
def errorMember (e : ApiError) : Member :=
  ⟨"error", object (e.detailMembers.map Member.written), .object (e.detailMembers.map Member.read),
    Member.reads_object e.detailMembers⟩

theorem reads_body (e : ApiError) : Reads e.body (.object ([e.errorMember].map Member.read)) :=
  Member.reads_object [e.errorMember]

theorem toList_response_body (e : ApiError) : e.response.body.toList = utf8 e.body := by
  have hbody : e.response.body = (String.ofList e.body).toUTF8 := by
    simp only [response, Response.withStatus, Response.ofTyped, Response.ofBytes]
  rw [hbody, toList_toUTF8, String.toList_ofList]

theorem rawText_injective : Function.Injective rawText := by
  intro s t h
  have hread := textOf?_rawText s
  rw [h, textOf?_rawText] at hread
  exact (Option.some.inj hread).symm

/-- A client can tell errors apart by their status, kind and message, and by nothing else. -/
theorem response_eq_iff {e f : ApiError} :
    e.response = f.response ↔ e.status = f.status ∧ e.kind = f.kind ∧ e.message = f.message := by
  constructor
  · intro h
    have hbody : utf8 e.body = utf8 f.body := by
      rw [← toList_response_body, ← toList_response_body, h]
    have htree := e.reads_body.ofBytes?
    rw [hbody, f.reads_body.ofBytes?] at htree
    have htexts : rawText f.kind = rawText e.kind ∧ rawText f.message = rawText e.message := by
      simpa [Member.read, errorMember, detailMembers, Member.ofText] using htree
    exact ⟨congrArg Response.status h, (rawText_injective htexts.1).symm,
      (rawText_injective htexts.2).symm⟩
  · rintro ⟨hstatus, hkind, hmessage⟩
    rw [response, response, body, body, hstatus, hkind, hmessage]

end AppServer.Http.ApiError
