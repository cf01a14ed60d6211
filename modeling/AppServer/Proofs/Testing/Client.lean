import AppServer.Proofs.Http.ApiError
import AppServer.Proofs.Http.Target
import AppServer.Proofs.Server.Delivery
import AppServer.Testing.Client

/-!
# The client beside the listeners

A client sends its requests into the router that a listener would choose for them, and refuses long
bodies in the words of a listener. Only the limit is its own. So client and listener answer alike
where their limits are the same, and otherwise as long as no limit is passed: a body between the two
limits is refused by one of them and not by the other.
-/

namespace AppServer

open Http Pipeline Routing Testing

variable {σ : Type}

theorem bodyTooLarge_response_inj {m n : Nat} :
    (bodyTooLarge m).response = (bodyTooLarge n).response ↔ m = n := by
  constructor
  · intro h
    obtain ⟨-, -, hmessage⟩ := ApiError.response_eq_iff.mp h
    have htext : "Request body exceeds " ++ toString m ++ " bytes" =
        "Request body exceeds " ++ toString n ++ " bytes" := hmessage
    exact Number.toString_injective
      ((String.append_right_inj _).mp ((String.append_left_inj _).mp htext))
  · rintro rfl
    rfl

/-- The outcome where a limit is set: the given one, unless the body is longer. -/
def limited (limit size : Nat) (outcome : Except Payload Response) : Except Payload Response :=
  if limit < size then .ok (bodyTooLarge limit).response else outcome

theorem limited_of_le {limit size : Nat} (h : size ≤ limit) (outcome : Except Payload Response) :
    limited limit size outcome = outcome :=
  if_neg (Nat.not_lt.mpr h)

theorem limited_of_lt {limit size : Nat} (h : limit < size) (outcome : Except Payload Response) :
    limited limit size outcome = .ok (bodyTooLarge limit).response :=
  if_pos h

theorem limited_eq_iff_of_le {m n : Nat} (hle : m ≤ n) (size : Nat)
    (outcome : Except Payload Response) :
    limited m size outcome = limited n size outcome ↔
      size ≤ m ∨ m = n ∨ size ≤ n ∧ outcome = .ok (bodyTooLarge m).response := by
  by_cases hm : size ≤ m
  · rw [limited_of_le hm, limited_of_le (Nat.le_trans hm hle)]
    exact iff_of_true rfl (.inl hm)
  · rw [limited_of_lt (Nat.lt_of_not_le hm), or_iff_right hm]
    by_cases hn : size ≤ n
    · have hne : m ≠ n := by
        rintro rfl
        exact hm hn
      rw [limited_of_le hn, or_iff_right hne, and_iff_right hn, eq_comm]
    · rw [limited_of_lt (Nat.lt_of_not_le hn), Except.ok.injEq, bodyTooLarge_response_inj]
      exact (or_iff_left fun hboth => hn hboth.1).symm

/-- Two limits make no difference to a body within both, nor if they are the same. Otherwise it takes
a response in the words of the smaller one. -/
theorem limited_eq_iff (m n size : Nat) (outcome : Except Payload Response) :
    limited m size outcome = limited n size outcome ↔
      size ≤ min m n ∨ m = n ∨
        size ≤ max m n ∧ outcome = .ok (bodyTooLarge (min m n)).response := by
  rcases Nat.le_total m n with hle | hle
  · rw [Nat.min_eq_left hle, Nat.max_eq_right hle]
    exact limited_eq_iff_of_le hle size outcome
  · rw [Nat.min_eq_right hle, Nat.max_eq_left hle, eq_comm, @eq_comm _ m n]
    exact limited_eq_iff_of_le hle size outcome

/-- The outcome under a limit, wherever a longer body leaves the world. -/
theorem fst_ite_limited (limit size : Nat) (run : Except Payload Response × World σ)
    (w : World σ) :
    (if limit < size then (.ok (bodyTooLarge limit).response, w) else run).1 =
      limited limit size run.1 := by
  unfold limited
  split <;> rfl

namespace Testing.Draft

/-- The bytes of the body, none if no body is given. -/
def content (d : Draft) : ByteArray :=
  d.body.getD .empty

/-- The draft on its way in to a listener, its target read as `u`. -/
def arrival (d : Draft) (u : Uri) : Arrival :=
  ⟨⟨d.method, u, .http11, d.headers, []⟩, d.content, none⟩

theorem request_eq_complete {d : Draft} {u : Uri} (h : Uri.ofString? d.target = some u) :
    d.request = (d.arrival u).complete := by
  unfold request
  rw [h]
  rfl

end Testing.Draft

namespace Testing.Client

variable {c : Client σ} {d : Draft}

theorem send_of_le (h : d.content.size ≤ c.bodyLimit) : c.send d = c.router.serve d.request :=
  if_neg (Nat.not_lt.mpr h)

theorem send_of_lt (h : c.bodyLimit < d.content.size) :
    c.send d = return (bodyTooLarge c.bodyLimit).response :=
  if_pos h

end Testing.Client

/-- A client that sends into the router which a listener of a built server chooses answers as the
listener does, up to the log line of the listener, save for the limit on bodies: either answers 413 in
its own words beyond its own limit. So they agree on a body within both limits, on every body if the
limits are the same, and otherwise only if the router happens to refuse in the words of the one that
refuses. -/
theorem Blueprint.send_receives_alike {b : Blueprint σ} {s : Server σ} (h : b.build.1 = .ok s)
    {c : Connector} {client : Client σ} {d : Draft} {u : Uri}
    (htarget : Uri.ofString? d.target = some u) (hrouter : client.router = s.routerFor c u.path)
    (w : World σ) :
    let run := (client.router.serve d.request).runIn w
    (∀ next, run.1 = .error next → ∃ p, p.dropped = some next ∧
      run.2.log.getLast? = some (panicEvent d.request p)) ∧
    (client.send d).runIn w =
      (if client.bodyLimit < d.content.size then
        (.ok (bodyTooLarge client.bodyLimit).response, w)
      else run) ∧
    (s.receive c (d.arrival u)).runIn w =
      (if b.config.maxBodySize < d.content.size then
        (.ok (bodyTooLarge b.config.maxBodySize).response,
          { w with log := w.log ++ [answered (d.arrival u) 413] })
      else (d.arrival u).logged run) ∧
    (((client.send d).runIn w).1 = ((s.receive c (d.arrival u)).runIn w).1 ↔
      d.content.size ≤ min client.bodyLimit b.config.maxBodySize ∨
      client.bodyLimit = b.config.maxBodySize ∨
      d.content.size ≤ max client.bodyLimit b.config.maxBodySize ∧
        run.1 = .ok (bodyTooLarge (min client.bodyLimit b.config.maxBodySize)).response) := by
  intro run
  obtain ⟨hvalid, -⟩ := Blueprint.build_eq_ok_iff.mp h
  have hserve : client.router.serve d.request = s.handle c (d.arrival u).complete := by
    rw [Draft.request_eq_complete htarget, hrouter]
    rfl
  have hrecovers : client.router.Recovers :=
    hrouter ▸ Blueprint.recovers_routerFor h c u.path
  have hsend : (client.send d).runIn w =
      if client.bodyLimit < d.content.size then
        (.ok (bodyTooLarge client.bodyLimit).response, w)
      else run := by
    by_cases hsize : client.bodyLimit < d.content.size
    · rw [Client.send_of_lt hsize, if_pos hsize]
      rfl
    · rw [Client.send_of_le (Nat.le_of_not_lt hsize), if_neg hsize]
  have hreceive : (s.receive c (d.arrival u)).runIn w = _ :=
    Server.runIn_receive (a := d.arrival u) rfl w
  rw [Config.maxBodySize_of_validate hvalid, ← hserve] at hreceive
  refine ⟨fun next => hrecovers.escapes, hsend, hreceive, ?_⟩
  have hlogged : ((d.arrival u).logged run).1 = run.1 := (d.arrival u).fst_logged run
  rw [hsend, hreceive, fst_ite_limited, fst_ite_limited, hlogged]
  exact limited_eq_iff _ _ _ run.1

/-- The same server with a listener for each surface. -/
def terse : Blueprint Unit :=
  { frugal with config := { maxBodySize := 4 } }

def terseServer : Server Unit :=
  ⟨terse.config.normalized,
    ((Router.withFilters "/" .empty).registerAll terse.application.routes).1,
    ((Router.withFilters "/" (terse.admin.filters.prepend Admin.cacheFilter)).registerAll
      (terse.admin.routes "/")).1⟩

theorem build_terse : terse.build.1 = .ok terseServer := by
  have hvalid : terse.config.validate = .ok terse.config.normalized :=
    Config.validate_eq_ok_iff.mpr
      ⟨.v4 ⟨0, 0, 0, 0⟩ 8080, .v4 ⟨0, 0, 0, 0⟩ 8081, by rfl, by rfl, by rfl, rfl⟩
  have happ : (terse.application.start "/").1 = .ok terseServer.application := by rfl
  have hadmin : (terse.admin.start "/").1 = .ok terseServer.admin := by rfl
  exact Blueprint.build_eq_ok_iff.mpr ⟨hvalid, happ, hadmin⟩

/-- A request to echo. -/
def echoing (body : String) : Draft :=
  (Draft.new .post "/echo").withBody body.toUTF8

def echoTarget : Uri :=
  ⟨none, none, "/echo", none⟩

theorem ofString?_echo : Uri.ofString? "/echo" = some echoTarget := by
  have hslash : "/echo".toList = '/' :: "echo".toList := rfl
  have hpath : "/echo".toList.all Uri.isPathChar = true := by decide
  exact Uri.ofString?_path hslash (by decide) (List.all_eq_true.mp hpath)

theorem serve_echoing (body : String) (w : World Unit) :
    ((terseServer.application.serve (echoing body).request).runIn w).1 =
      .ok (Response.text "ok") := by
  have hlookup : terseServer.application.lookup .post "/echo" =
      .found (.new [recoveryFilter] (.deferred fun _ => return Response.text "ok")) ⟨[]⟩
        ⟨[.literal "echo"]⟩ := by rfl
  have hrequest : (echoing body).request = ((echoing body).arrival echoTarget).complete :=
    Draft.request_eq_complete ofString?_echo
  rw [hrequest, Router.serve,
    show terseServer.application.lookup ((echoing body).arrival echoTarget).complete.method
      ((echoing body).arrival echoTarget).complete.uri.path = _ from hlookup]
  show (((recoveryFilter.around _).run _).runIn w).1 = _
  rw [runIn_run_recoveryFilter]
  rfl

/-- Four bytes are answered alike. -/
theorem send_echoing_four :
    terse.build.1 = .ok terseServer ∧
    Uri.ofString? (echoing "four").target = some echoTarget ∧
    (Client.application terseServer).router = terseServer.routerFor .application echoTarget.path ∧
    (((Client.application terseServer).send (echoing "four")).runIn ⟨(), []⟩).1 =
      ((terseServer.receive .application ((echoing "four").arrival echoTarget)).runIn ⟨(), []⟩).1 := by
  have hrouter : (Client.application terseServer).router =
      terseServer.routerFor .application echoTarget.path := rfl
  have htarget : Uri.ofString? (echoing "four").target = some echoTarget := ofString?_echo
  obtain ⟨-, -, -, hsame⟩ :=
    Blueprint.send_receives_alike build_terse htarget hrouter ⟨(), []⟩
  exact ⟨build_terse, htarget, hrouter, hsame.mpr (.inl (by decide))⟩

/-- Five bytes are not, since the client knows nothing of the limit that is configured. -/
theorem not_send_echoing_fifth :
    ¬ ∀ (b : Blueprint Unit) (s : Server Unit), b.build.1 = .ok s →
      ∀ (d : Draft) (u : Uri), Uri.ofString? d.target = some u → ∀ w,
        (((Client.application s).send d).runIn w).1 =
          ((s.receive .application (d.arrival u)).runIn w).1 := by
  intro hclaim
  have hsame := hclaim terse terseServer build_terse (echoing "fifth") _ ofString?_echo ⟨(), []⟩
  have hsend : (Client.application terseServer).send (echoing "fifth") =
      terseServer.application.serve (echoing "fifth").request := Client.send_of_le (by decide)
  rw [hsend, serve_echoing, Server.receive_of_lt (by decide)] at hsame
  have hstatus := congrArg Response.status (Except.ok.inj hsame)
  cases hstatus

end AppServer
