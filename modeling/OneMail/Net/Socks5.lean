import OneMail.Lib.Stream

/-! The SOCKS5 handshake of the aggregator.

    `createSocks5Socket` reads each of the proxy's two replies with one `recv`, which returns what has
    arrived of the stream, at most two and ten bytes. A reply with an IPv4 address is ten bytes long; a
    domain name or an IPv6 address makes another length, and a reply may arrive in parts. -/

namespace OneMail.Socks5

open Stream (Reader)

/-- A cut of a stream into the segments that arrive. -/
def Cut (bytes : List UInt8) := { segments : List (List UInt8) // segments.flatten = bytes ∧ ∀ s ∈ segments, s ≠ [] }

inductive BoundAddress
  | ipv4 (octets : { l : List UInt8 // l.length = 4 })
  | domain (name : { l : List UInt8 // l.length ≤ 255 })
  | ipv6 (octets : { l : List UInt8 // l.length = 16 })

/-- The type of the address and its bytes. -/
def BoundAddress.bytes : BoundAddress → List UInt8
  | .ipv4 octets => 1 :: octets.val
  | .domain name => 3 :: UInt8.ofNat name.val.length :: name.val
  | .ipv6 octets => 4 :: octets.val

/-- What a proxy does: its method, its reply to CONNECT, and what the target then sends through it. -/
structure Server where
  method : UInt8
  rep : UInt8
  bound : BoundAddress
  port : UInt16
  target : List UInt8

def Server.methodReply (srv : Server) : List UInt8 := [5, srv.method]

def portBytes (port : UInt16) : List UInt8 := [(port / 256).toUInt8, (port % 256).toUInt8]

def Server.connectReply (srv : Server) : List UInt8 := [5, srv.rep, 0] ++ srv.bound.bytes ++ portBytes srv.port

/-- Both replies signal success. -/
def Server.Accepts (srv : Server) : Prop := srv.method = 0 ∧ srv.rep = 0

inductive Raised
  | connectionError | valueError
  deriving DecidableEq

inductive Outcome
  | returned (unread : Reader UInt8)
  | raised (error : Raised) (closed : Bool)

/-- `s.recv(n)` -/
def recv (n : ℕ) (r : Reader UInt8) : List UInt8 × Reader UInt8 := Stream.read n r.buffer r.segments

/-- The greeting, and the request with the target's name. -/
def greeting : List UInt8 := [5, 1, 0]

def request (targetHost : List UInt8) (targetPort : UInt16) : List UInt8 :=
  [5, 1, 0, 3, UInt8.ofNat targetHost.length] ++ targetHost ++ portBytes targetPort

/-- `create_socks5_socket`, where the proxy answers what is sent with segments of the stream. -/
def createSocks5Socket (targetHost : List UInt8) (targetPort : UInt16) (proxy : List UInt8 → List (List UInt8)) :
    Outcome :=
  let (resp, r) := recv 2 ⟨[], proxy greeting⟩
  if resp.length < 2 ∨ resp[0]? ≠ some 5 ∨ resp[1]? ≠ some 0 then .raised .connectionError true
  -- `bytes([len(target_bytes)])` does not close the socket
  else if 255 < targetHost.length then .raised .valueError false
  else
    let (resp, r) := recv 10 ⟨r.buffer, r.segments ++ proxy (request targetHost targetPort)⟩
    if resp.length < 4 ∨ resp[1]? ≠ some 0 then .raised .connectionError true
    else .returned r

/-- The proxy's answers, each in its segments. -/
def answers (first second : List (List UInt8)) (sent : List UInt8) : List (List UInt8) :=
  if sent = greeting then first else second

/-- A socket is returned for two replies of success and is at the target's first byte, or the call raises. -/
def Exact (srv : Server) (outcome : Outcome) : Prop :=
  ((∃ unread, outcome = .returned unread) ↔ srv.Accepts) ∧
  (∀ unread, outcome = .returned unread → unread.remaining = srv.target) ∧
  ((∀ unread, outcome ≠ .returned unread) → outcome = .raised .connectionError true)

/-- The first segment is what one `recv` of at most `n` bytes takes of it. -/
def Whole (n size : ℕ) (segments : List (List UInt8)) : Prop :=
  ∃ segment rest, segments = segment :: rest ∧ min n segment.length = size

section Handshake

variable {srv : Server} {bytes : List UInt8}

theorem Cut.exists_cons (cut : Cut bytes) (h : bytes ≠ []) :
    ∃ segment rest, cut.val = segment :: rest ∧ segment ≠ [] ∧ segment ++ rest.flatten = bytes := by
  obtain ⟨segments, hflat, hne⟩ := cut
  rcases segments with - | ⟨segment, rest⟩
  · exact absurd hflat.symm h
  · exact ⟨segment, rest, rfl, hne segment List.mem_cons_self, hflat⟩

theorem recv_segment {n : ℕ} {segment : List UInt8} {rest : List (List UInt8)} (h : segment ≠ []) :
    recv n ⟨[], segment :: rest⟩ = (segment.take n, ⟨segment.drop n, rest⟩) := by
  rw [recv, Stream.read, if_neg (not_not.mpr rfl)]
  unfold Stream.read
  exact if_pos h

theorem request_ne_greeting (host : List UInt8) (port : UInt16) : request host port ≠ greeting := by
  intro h
  have hlen := congrArg List.length h
  simp [request, greeting, portBytes] at hlen

theorem connectReply_eq (srv : Server) : ∃ rest, srv.connectReply = 5 :: srv.rep :: 0 :: rest ∧ 3 ≤ rest.length := by
  refine ⟨srv.bound.bytes ++ portBytes srv.port, rfl, ?_⟩
  have hbytes : 1 ≤ srv.bound.bytes.length := by
    cases srv.bound <;> simp [BoundAddress.bytes]
  rw [List.length_append, show (portBytes srv.port).length = 2 from rfl]
  omega

variable {host : List UInt8} {port : UInt16} {segment : List UInt8} {rest second : List (List UInt8)}

/-- A method reply of which only the first byte comes in is taken for a failure. -/
theorem halved_method : createSocks5Socket host port (answers ([5] :: rest) second) = .raised .connectionError true := by
  rw [createSocks5Socket, answers, if_pos rfl, recv_segment (List.cons_ne_nil _ _)]
  exact if_pos (.inl (by decide))

theorem refused_method (h : srv.method ≠ 0) :
    createSocks5Socket host port (answers (srv.methodReply :: rest) second) = .raised .connectionError true := by
  rw [createSocks5Socket, Server.methodReply, answers, if_pos rfl, recv_segment (List.cons_ne_nil _ _)]
  refine if_pos (.inr (.inr fun hzero => h ?_))
  exact Option.some.inj hzero

/-- What the second `recv` decides when the first one has found success. -/
theorem accepted_method (hhost : host.length ≤ 255) (hmethod : srv.method = 0) (hne : segment ≠ []) :
    createSocks5Socket host port (answers [srv.methodReply] (segment :: rest)) =
      if (segment.take 10).length < 4 ∨ (segment.take 10)[1]? ≠ some 0 then .raised .connectionError true
      else .returned ⟨segment.drop 10, rest⟩ := by
  rw [createSocks5Socket, Server.methodReply, hmethod, answers, if_pos rfl, recv_segment (List.cons_ne_nil _ _)]
  dsimp only
  rw [if_neg (by decide), if_neg (Nat.not_lt.mpr hhost), answers, if_neg (request_ne_greeting host port),
    show (([5, 0] : List UInt8).drop 2) = [] from rfl, List.nil_append, recv_segment hne]

theorem exact_raised : Exact srv (.raised .connectionError true) ↔ ¬srv.Accepts := by
  refine ⟨fun ⟨hiff, _, _⟩ haccepts => ?_, fun hno => ⟨⟨fun ⟨_, h⟩ => ?_, fun h => absurd h hno⟩, fun _ h => ?_, fun _ => rfl⟩⟩
  · obtain ⟨_, h⟩ := hiff.mpr haccepts
    cases h
  · cases h
  · cases h

theorem exact_returned {unread : Reader UInt8} (h : srv.Accepts) :
    Exact srv (.returned unread) ↔ unread.remaining = srv.target := by
  refine ⟨fun ⟨_, hunread, _⟩ => hunread unread rfl, fun hunread => ⟨⟨fun _ => h, fun _ => ⟨unread, rfl⟩⟩, ?_, ?_⟩⟩
  · intro r hr
    cases hr
    exact hunread
  · exact fun hno => absurd rfl (hno unread)

/-- Two bytes come whole or halved. -/
theorem method_cases (first : Cut srv.methodReply) :
    first.val = [srv.methodReply] ∨ first.val ≠ [srv.methodReply] ∧ ∃ rest, first.val = [5] :: rest := by
  obtain ⟨segment, rest, hval, hne, hflat⟩ := first.exists_cons (List.cons_ne_nil _ _)
  have hrest : ∀ s ∈ rest, s ≠ [] := fun s hs => first.property.2 s (hval ▸ List.mem_cons_of_mem _ hs)
  rcases segment with - | ⟨a, - | ⟨b, segment⟩⟩
  · exact absurd rfl hne
  · obtain ⟨rfl, -⟩ := List.cons.inj hflat
    refine .inr ⟨fun h => ?_, rest, hval⟩
    rw [hval] at h
    cases h
  · obtain ⟨rfl, htail⟩ := List.cons.inj hflat
    obtain ⟨rfl, hend⟩ := List.cons.inj htail
    obtain ⟨rfl, hnone⟩ := List.append_eq_nil_iff.mp hend
    left
    rcases rest with - | ⟨s, rest⟩
    · exact hval
    · rw [List.flatten_cons, List.append_eq_nil_iff] at hnone
      exact absurd hnone.1 (hrest s List.mem_cons_self)

/-- The handshake is exact unless both replies signal success and come otherwise than in one read each, the
    second one in as many bytes as its `recv` takes of the first segment. -/
theorem handshake_exact (host : { l : List UInt8 // l.length ≤ 255 }) (port : UInt16) (srv : Server)
    (first : Cut srv.methodReply) (second : Cut (srv.connectReply ++ srv.target)) :
    Exact srv (createSocks5Socket host.val port (answers first.val second.val)) ↔
    (srv.Accepts → first.val = [srv.methodReply] ∧ Whole 10 srv.connectReply.length second.val) := by
  rcases method_cases first with hfirst | ⟨hfirst, rest, hrest⟩
  · by_cases hmethod : srv.method = 0
    · obtain ⟨tail, htail, hlong⟩ := connectReply_eq srv
      obtain ⟨segment, rest, hval, hne, hflat⟩ := second.exists_cons (by rw [htail]; exact List.cons_ne_nil _ _)
      have hwhole : Whole 10 srv.connectReply.length second.val ↔ min 10 segment.length = srv.connectReply.length := by
        refine ⟨fun ⟨s, r, hs, hmin⟩ => ?_, fun hmin => ⟨segment, rest, hval, hmin⟩⟩
        rw [hval] at hs
        obtain ⟨rfl, -⟩ := List.cons.inj hs
        exact hmin
      have hlen : 6 ≤ srv.connectReply.length := by
        rw [htail, List.length_cons, List.length_cons, List.length_cons]
        omega
      rw [hwhole, hfirst, hval, accepted_method host.property hmethod hne, and_iff_right rfl]
      by_cases hshort : (segment.take 10).length < 4
      · rw [if_pos (.inl hshort), exact_raised]
        rw [List.length_take] at hshort
        exact forall_congr' fun _ => ⟨False.elim, fun h => by omega⟩
      · have hsecond : (segment.take 10)[1]? = some srv.rep := by
          rw [List.length_take] at hshort
          rcases segment with - | ⟨a, - | ⟨b, segment⟩⟩
          · exact absurd rfl hne
          · rw [List.length_singleton] at hshort
            omega
          · rw [htail] at hflat
            obtain ⟨-, hrestflat⟩ := List.cons.inj hflat
            obtain ⟨rfl, -⟩ := List.cons.inj hrestflat
            rfl
        by_cases hrep : srv.rep = 0
        · rw [if_neg (by rw [hsecond, hrep]; simpa using hshort), exact_returned ⟨hmethod, hrep⟩]
          have hremaining : Reader.remaining ⟨segment.drop 10, rest⟩ =
              (srv.connectReply ++ srv.target).drop (min 10 segment.length) := by
            rw [← hflat, List.drop_append_of_le_length (Nat.min_le_right _ _), List.drop_eq_drop_min]
            rfl
          rw [hremaining]
          refine ⟨fun h _ => ?_, fun h => ?_⟩
          · have hcount := congrArg List.length h
            have htotal := congrArg List.length hflat
            rw [List.length_drop, List.length_append] at hcount
            rw [List.length_append, List.length_append] at htotal
            omega
          · rw [h ⟨hmethod, hrep⟩, List.drop_left]
        · rw [if_pos (.inr (by rw [hsecond]; exact fun h => hrep (Option.some.inj h))), exact_raised]
          exact ⟨fun _ h => absurd h.2 hrep, fun _ h => hrep h.2⟩
    · rw [hfirst, refused_method hmethod, exact_raised]
      exact ⟨fun _ h => absurd h.1 hmethod, fun _ h => hmethod h.1⟩
  · rw [hrest, halved_method, exact_raised]
    exact forall_congr' fun _ => ⟨False.elim, fun h => hfirst (by rw [hrest]; exact h.1)⟩

/-- A proxy that answers with an IPv6 address, for a target that sends one byte. -/
def ipv6Proxy : Server := ⟨0, 0, .ipv6 ⟨List.replicate 16 0, by decide⟩, 0, [42]⟩

/-- Twelve bytes of its reply are left before the target's. -/
theorem ipv6_misaligned : ∃ (first : Cut ipv6Proxy.methodReply) (second : Cut (ipv6Proxy.connectReply ++ ipv6Proxy.target)),
    ¬Exact ipv6Proxy (createSocks5Socket [104] 993 (answers first.val second.val)) := by
  refine ⟨⟨[ipv6Proxy.methodReply], by decide⟩, ⟨[ipv6Proxy.connectReply, ipv6Proxy.target], by decide⟩, fun hexact => ?_⟩
  rw [accepted_method (by decide) rfl (by decide), if_neg (by decide), exact_returned ⟨rfl, rfl⟩] at hexact
  revert hexact
  decide

end Handshake

end OneMail.Socks5
