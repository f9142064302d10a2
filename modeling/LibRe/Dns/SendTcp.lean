/-
LibRe.Dns.SendTcp — a query looks for a TCP server (`send_tcp` of `src/dns/client.c`).

The loop goes through the servers that were not tried yet and attaches the query
to the first connection that takes it. A server is passed over when no connection
can be allocated or when sending on an established one fails.

The result is the variable `err` of the loop. It is set by `tcpconn_alloc` and by
`tcp_send`, and a connection that is found while it is still being set up calls
neither. So the error of a server that was passed over before is returned
although the query is attached, and `query` then frees it.

Translation notes. What a server offers when its turn comes is an input: the
connection `hash_lookup` finds and what the two calls return. It may depend on
what other queries do to the table in between, such as those that `tcpconn_close`
sends on to their own next servers. The query is on no connection meanwhile.
-/
import LibRe.Mbuf.Mbuf

namespace LibRe.Dns

/-- What the client finds for a server when its turn comes. -/
inductive Offer where
  /-- No connection: the result of `tcpconn_alloc`. -/
  | alloc (err : Option Errno)
  /-- A connection that is not established yet. -/
  | connecting
  /-- An established connection: the result of `tcp_send`. -/
  | connected (err : Option Errno)
  deriving DecidableEq, Repr

/-- The query is attached to the connection of this server. -/
def Offer.takes : Offer → Bool
  | alloc err | connected err => err.isNone
  | connecting => true

/-- The connection a query is attached to: its server, and whether the query was
sent on it or waits for it to be established. -/
structure Attached where
  server : Nat
  sent : Bool
  deriving DecidableEq, Repr

/-- The result of `send_tcp` and the fields of the query it sets. -/
structure SendTcp where
  err : Option Errno
  ntx : Nat
  tc : Option Attached
  deriving DecidableEq, Repr

/-- The loop of `send_tcp` over the servers not tried yet. -/
def sendTcpLoop : List Offer → Nat → Option Errno → SendTcp
  | [], ntx, err => ⟨err, ntx, none⟩
  | .alloc (some e) :: servers, ntx, _ => sendTcpLoop servers (ntx + 1) (some e)
  | .alloc none :: _, ntx, _ => ⟨none, ntx + 1, some ⟨ntx, false⟩⟩
  -- the connection is closed as well
  | .connected (some e) :: servers, ntx, _ => sendTcpLoop servers (ntx + 1) (some e)
  | .connected none :: _, ntx, _ => ⟨none, ntx + 1, some ⟨ntx, true⟩⟩
  -- nothing sets `err` here
  | .connecting :: _, ntx, err => ⟨err, ntx + 1, some ⟨ntx, false⟩⟩

/-- `send_tcp` for a query that has tried `ntx` of its servers. -/
def sendTcp (servers : List Offer) (ntx : Nat) : SendTcp :=
  sendTcpLoop (servers.drop ntx) ntx none

variable {servers : List Offer} {o : Offer} (ntx : Nat) (err : Option Errno)

/-- A server that does not take the query leaves its error behind. -/
theorem sendTcpLoop_pass (servers : List Offer) (h : o.takes = false) :
    ∃ e, sendTcpLoop (o :: servers) ntx err = sendTcpLoop servers (ntx + 1) (some e) := by
  rcases o with (_ | e) | _ | (_ | e)
  · simp [Offer.takes] at h
  · exact ⟨e, rfl⟩
  · simp [Offer.takes] at h
  · simp [Offer.takes] at h
  · exact ⟨e, rfl⟩

/-- When no server takes the query it is not attached, and no error means that
there was no server. -/
theorem sendTcpLoop_none (h : servers.find? Offer.takes = none) :
    (sendTcpLoop servers ntx err).tc = none ∧
      ((sendTcpLoop servers ntx err).err = none ↔ servers = [] ∧ err = none) := by
  induction servers generalizing ntx err with
  | nil => simp [sendTcpLoop]
  | cons o servers ih =>
    cases ho : o.takes with
    | true => simp [ho] at h
    | false =>
      obtain ⟨e, heq⟩ := sendTcpLoop_pass ntx err servers ho
      rw [heq]
      simpa using ih (ntx + 1) (some e) (by simpa [ho] using h)

/-- The first server that takes the query gets it. Only one whose connection is
still being set up lets an earlier error through. -/
theorem sendTcpLoop_some (h : servers.find? Offer.takes = some o) :
    (sendTcpLoop servers ntx err).tc =
        some ⟨ntx + servers.findIdx Offer.takes, o = .connected none⟩ ∧
      ((sendTcpLoop servers ntx err).err = none ↔
        (o = .connecting → servers.head? = some .connecting ∧ err = none)) := by
  induction servers generalizing ntx err with
  | nil => simp at h
  | cons first servers ih =>
    cases hf : first.takes with
    | true =>
      obtain rfl : first = o := by simpa [hf] using h
      rcases first with (_ | e) | _ | (_ | e) <;>
        simp_all [sendTcpLoop, Offer.takes, List.findIdx_cons]
    | false =>
      obtain ⟨e, heq⟩ := sendTcpLoop_pass ntx err servers hf
      obtain ⟨htc, herr⟩ := ih (ntx + 1) (some e) (by simpa [hf] using h)
      have hne : first ≠ .connecting := by
        rintro rfl
        simp [Offer.takes] at hf
      rw [heq, htc, herr]
      simp [List.findIdx_cons, hf, hne, add_comm, add_left_comm]

/-- `send_tcp` returns 0 exactly when the query is attached, if and only if a
server was left to try and a connection that is still being set up takes the
query only when its server is the first one tried. -/
theorem sendTcp_ok_iff_attached (servers : List Offer) (ntx : Nat) :
    ((sendTcp servers ntx).err = none ↔ (sendTcp servers ntx).tc.isSome) ↔
      servers.drop ntx ≠ [] ∧
        ((servers.drop ntx).find? Offer.takes = some .connecting →
          (servers.drop ntx).head? = some .connecting) := by
  unfold sendTcp
  cases h : (servers.drop ntx).find? Offer.takes with
  | none =>
    obtain ⟨htc, herr⟩ := sendTcpLoop_none ntx none h
    simp [htc, herr]
  | some o =>
    obtain ⟨htc, herr⟩ := sendTcpLoop_some ntx none h
    have hne : servers.drop ntx ≠ [] := by
      intro hnil
      simp [hnil] at h
    simp [htc, herr, hne]

/-- The first server cannot be reached and the connection to the second is being
set up for another query: the query is attached to it and the error returned. -/
theorem stale_error_attached :
    ¬ ∀ (servers : List Offer) (ntx : Nat),
      (sendTcp servers ntx).err = none ↔ (sendTcp servers ntx).tc.isSome := by
  intro h
  exact absurd (h [.alloc (some .EAFNOSUPPORT), .connecting] 0) (by decide)

end LibRe.Dns
