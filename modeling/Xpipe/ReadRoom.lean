import Xpipe.WriteInterest

/-!
# The room that a read is offered

`read` returns zero for the end of the stream, and also for an offer of no room.
`tcp_request_process` chains a new block when one is full, but only after OK: a
request that ends with its last block full has no room, and if its answer stops
at EAGAIN it stays on its connection, whose next read is then taken for the end
of the stream.
-/
namespace Xpipe
open Linked Machines Runs

/-- `last_buffer->end - last_buffer->last`. -/
def roomOf (bs : List Buffer) : ℕ := (bs[lastIndex bs]?.map Buffer.room).getD 0

lemma roomOf_eq (bs : List Buffer) : roomOf bs =
    ((bs.map Buffer.size)[lastIndex bs]?).getD 0 - (received bs (lastIndex bs)).length := by
  unfold roomOf received
  rw [List.getElem?_map]
  cases bs[lastIndex bs]? with
  | none => rfl
  | some b => rfl

/-- The bytes of a read fit into the room it was offered. -/
lemma got_length_le (r : Request) (x : ReadResult) : (r.got x).length ≤ r.room := by
  unfold Request.got
  split
  · exact List.length_take_le ..
  · exact Nat.zero_le _

/-- The request has room for the next read. -/
def Request.Roomy (r : Request) : Prop := 0 < r.room

lemma newRequest_roomy {size : ℕ} (h : 0 < size) (pool : ℕ) : (newRequest size pool).Roomy := by
  simpa [Request.Roomy, Request.room, newRequest, lastIndex, Buffer.room] using h

/-- A call of `read` in a round has room to read into, so it returns no bytes only
when the client has sent none. -/
structure ReadHasRoom (r : Request) (o : Outcomes) : Prop where
  room : 0 < r.room
  bytes : ∀ data, o.read = .bytes data → data ≠ [] → r.got o.read ≠ []

/-- Every call of `read` in a step has room. -/
def ReadsHaveRoom (s : Net) : Input → Prop
  | .poll _ => True
  | .dispatch o => ∀ e r, s.crashed = false → s.cursor = some e →
      (s.conns e).activeEvents.read = true → (s.conns e).readEventHandler = some .recv →
      reader s.bufSize (s.conns e) s.trace o = some r → ReadHasRoom r o

lemma Request.Roomy.reads {r : Request} (h : r.Roomy) (o : Outcomes) : ReadHasRoom r o := by
  refine ⟨h, fun data hread hne => ?_⟩
  have hroom : 0 < r.room := h
  rw [hread]
  unfold Request.got
  rw [Ne, List.take_eq_nil_iff, not_or]
  exact ⟨by omega, hne⟩

/-- The requests of the server have room. -/
structure Offering (s : Net) : Prop where
  resting : Resting s
  size : 0 < s.bufSize
  roomy : EveryRequest Request.Roomy s

lemma Offering.reads {s : Net} (h : Offering s) (hc : Conserving s) (i : Input) :
    ReadsHaveRoom s i := by
  cases i with
  | poll reports => trivial
  | dispatch o =>
    intro e r hgo hcur _ _ hreader
    have he := hc.taken hcur
    exact (reader_keeps (newRequest_roomy h.size _) (h.roomy hgo e he) hreader).reads o

/-- The client has been accepted, and its connection is readable. -/
def clientReadable : Net :=
  [.poll [(0, .readOnly)], .dispatch (outcomes (some 5) [] [] []), .poll [(1, .readOnly)]].foldl
    netStep twoConnections

/-- What the server does until then. -/
lemma client_accepted : Along netStep (fun s i => PollsValid s i ∧ i.Drops) twoConnections
    [.poll [(0, .readOnly)], .dispatch (outcomes (some 5) [] [] []), .poll [(1, .readOnly)]] :=
  ⟨⟨reported_one 3 .readOnly rfl (by decide) (by decide), trivial⟩, ⟨trivial, rfl⟩,
    ⟨reported_one 5 .readOnly rfl (by decide) (by decide), trivial⟩, trivial⟩

lemma clientReadable_agreeing : Agreeing clientReadable :=
  invariant_foldl (I := Agreeing) (fun _ i h hi => (netStep_agreeing h i hi.1 hi.2).1)
    (initNetworkMod_agreeing (n := 2) (by decide) 3 1024 (fun _ => newConn 0 0)) client_accepted

end Xpipe
