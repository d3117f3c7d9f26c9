import PdGuard.Adapter.LlmClient

namespace PdGuard.HttpLlmClient

variable {client : HttpLlmClient} {breakers : Breakers} {upstream : String} {req : HttpRequest}
  {body : Bytes} {net : Net}

structure Reaches (client : HttpLlmClient) (breakers : Breakers) (upstream : String)
    (req : HttpRequest) (net : Net) (cfg : Config.UpstreamConfig) : Prop where
  known : client.upstreams upstream = some cfg
  allowed : (allow breakers upstream net).1 = true
  parses : net.parseUri (url cfg req) = .ok ()
  built : buildable cfg = true

theorem perform_sent (out : Outgoing) (timeoutMs : ℕ) :
    (perform breakers upstream out timeoutMs net).sent = some out := by
  rw [perform]
  cases net.exchange out timeoutMs with
  | answered status headers body => cases body <;> rfl
  | failed e => rfl
  | timedOut => rfl

theorem Reaches.sent {cfg : Config.UpstreamConfig}
    (h : Reaches client breakers upstream req net cfg) (body : Bytes) :
    (client.send breakers upstream req body net).sent =
      some ⟨req.method, url cfg req, outHeaders cfg req, body⟩ := by
  have hallowed := h.allowed
  rw [send, h.known]
  rcases hallow : allow breakers upstream net with ⟨ok, breakers'⟩
  rw [hallow] at hallowed
  obtain rfl : ok = true := hallowed
  simp only [h.parses, h.built, Bool.not_true, Bool.false_eq_true, if_false, perform_sent]

theorem reaches_of_sent {o : Outgoing}
    (h : (client.send breakers upstream req body net).sent = some o) :
    ∃ cfg, Reaches client breakers upstream req net cfg := by
  unfold send at h
  cases hknown : client.upstreams upstream with
  | none => simp [hknown] at h
  | some cfg =>
    rcases hallow : allow breakers upstream net with ⟨_ | _, breakers'⟩
    · simp [hknown, hallow] at h
    · cases hparse : net.parseUri (url cfg req) with
      | error e => simp [hknown, hallow, hparse] at h
      | ok u =>
        cases hbuilt : buildable cfg with
        | false => simp [hknown, hallow, hparse, hbuilt] at h
        | true => exact ⟨cfg, hknown, by rw [hallow], hparse, hbuilt⟩

theorem sent_isSome_iff (client : HttpLlmClient) (breakers : Breakers) (upstream : String)
    (req : HttpRequest) (body : Bytes) (net : Net) :
    (client.send breakers upstream req body net).sent.isSome ↔
      ∃ cfg, Reaches client breakers upstream req net cfg := by
  constructor
  · intro h
    obtain ⟨o, ho⟩ := Option.isSome_iff_exists.mp h
    exact reaches_of_sent ho
  · rintro ⟨cfg, h⟩
    rw [h.sent]
    rfl

end PdGuard.HttpLlmClient
