import Xpipe.Linked
import Xpipe.Spans

/-!
# The body over the chain of buffers

The request as memory holds it: blocks that are linked by `next`, with `buffers` and
`last_buffer` pointing to two of them. `Chained.recvAll_refines` says that this is the
list of blocks that the other modules work with. For every sequence of reads,
`reassembles` follows the links and finds the stream, and of a `PUT` that has ended
the body between the marks.
-/
namespace Xpipe
open Linked Segments

/-- The receive side of `tcp_request_t`: the blocks in the order of their allocation,
the field `next` of each, and the fields `buffers`, `last_buffer` and `protocol`. -/
structure Chained where
  blocks : List Buffer
  next : ℕ → Option ℕ
  buffers : ℕ
  lastBuffer : ℕ
  protocol : Protocol

/-- A block is full: `b->last == b->end`. -/
def fullAt (bs : List Buffer) (k : ℕ) : Bool := (bs[k]?.map Buffer.full).getD false

namespace Chained

/-- The receive side after `tcp_request_init`, with a first block of `first` bytes. -/
def init (first : ℕ) : Chained where
  blocks := [⟨first, []⟩]
  next := fun _ => none
  buffers := 0
  lastBuffer := 0
  protocol := protocolInit

/-- `read` stores `chunk` at `last_buffer->last`, and the parser is called on it. -/
def parse (w : Layout) (r : Chained) (chunk : List UInt8) : Parsed :=
  let start := (received r.blocks r.lastBuffer).length
  let blocks := r.blocks.modify r.lastBuffer (fun b => { b with bytes := b.bytes ++ chunk })
  match scan w r.lastBuffer chunk.length start
      ⟨blocks, r.protocol, r.protocol.state, r.protocol.tmpDataLen⟩ with
  | .error e => ⟨e.1, e.2.buffers, e.2.pro⟩
  | .ok s => finishScan s ⟨r.lastBuffer, start + chunk.length⟩

/-- The request after a call of the parser. -/
def after (r : Chained) (p : Parsed) : Chained :=
  { r with blocks := p.buffers, protocol := p.pro }

/-- A new block, linked behind `last_buffer`, which it becomes. -/
def link (r : Chained) : Chained where
  blocks := r.blocks ++ [⟨bufferMinSize, []⟩]
  next := fun k =>
    if k = r.lastBuffer then some r.blocks.length
    else if k = r.blocks.length then none else r.next k
  buffers := r.buffers
  lastBuffer := r.blocks.length
  protocol := r.protocol

/-- `tcp_request_process` after OK: a full `last_buffer` gets a new block behind it. -/
def grow (r : Chained) : Chained := if fullAt r.blocks r.lastBuffer then r.link else r

end Chained

/-- Where the reads of a request stopped: the last result, the request, and the reads that
came after it. -/
structure ChainedRounds where
  code : Code
  request : Chained
  unread : List (List UInt8)

namespace Chained

/-- The reads of `tcp_server_recv` until the first result other than OK. -/
def recvAll (w : Layout) : Chained → List (List UInt8) → ChainedRounds
  | r, [] => ⟨.ok, r, []⟩
  | r, c :: cs =>
    let p := r.parse w c
    if p.code = .ok then recvAll w (r.after p).grow cs else ⟨p.code, r.after p, cs⟩

/-! ## The chain is a list -/

/-- The links run through all blocks in the order of their allocation, and every block
before the last one is full. -/
structure InOrder (r : Chained) : Prop where
  ne_nil : r.blocks ≠ []
  head : r.buffers = 0
  last : r.lastBuffer = lastIndex r.blocks
  links : Chain r.next (some 0) (List.range r.blocks.length)
  full : ∀ k < lastIndex r.blocks, fullAt r.blocks k = true

lemma inOrder_init (first : ℕ) : (init first).InOrder where
  ne_nil := by simp [init]
  head := rfl
  last := rfl
  links := ⟨rfl, rfl⟩
  full := by
    intro k hk
    cases hk

lemma parse_eq {r : Chained} (h : r.InOrder) (w : Layout) (chunk : List UInt8) :
    r.parse w chunk = parseChunk w r.blocks r.protocol chunk := by
  unfold parse parseChunk protocolParse
  rw [lastIndex_extendLast, h.last]
  rfl

end Chained

lemma fullAt_eq {bs bs' : List Buffer} {k : ℕ}
    (hsize : (bs'.map Buffer.size)[k]? = (bs.map Buffer.size)[k]?)
    (hlen : (received bs' k).length = (received bs k).length) : fullAt bs' k = fullAt bs k := by
  simp only [List.getElem?_map] at hsize
  simp only [received] at hlen
  unfold fullAt
  cases hb : bs[k]? with
  | none =>
    rw [hb, Option.map_none, Option.map_eq_none_iff] at hsize
    rw [hsize]
  | some b =>
    rw [hb, Option.map_some, Option.map_eq_some_iff] at hsize
    obtain ⟨b', hb', hsize⟩ := hsize
    rw [hb, hb'] at hlen
    simp only [Option.map_some, Option.getD_some] at hlen
    simp only [hb', Option.map_some, Option.getD_some, Buffer.full, hsize, hlen]

/-- A call fills no block but the last one. -/
lemma fullAt_parseChunk (w : Layout) {bs : List Buffer} (pro : Protocol) (chunk : List UInt8)
    (hbs : bs ≠ []) {k : ℕ} (hk : k ≠ lastIndex bs) :
    fullAt (parseChunk w bs pro chunk).buffers k = fullAt bs k := by
  have hshape := parseChunk_shape w bs pro chunk
  apply fullAt_eq
  · rw [hshape.1, sizes_extendLast]
  · rw [hshape.2, received_extendLast bs chunk k hbs, if_neg hk]

lemma fullAt_chain {bs : List Buffer} {k : ℕ} (hk : k < bs.length) (b : Buffer) :
    fullAt (bs ++ [b]) k = fullAt bs k := by
  unfold fullAt
  rw [List.getElem?_append_left hk]

namespace Chained

/-- A call of the parser leaves the links alone. -/
lemma InOrder.after {r : Chained} (h : r.InOrder) (w : Layout) (chunk : List UInt8) :
    (r.after (r.parse w chunk)).InOrder := by
  have hshape := parseChunk_shape w r.blocks r.protocol chunk
  have hlength := hshape.length
  rw [length_extendLast] at hlength
  have hlast : lastIndex (parseChunk w r.blocks r.protocol chunk).buffers = lastIndex r.blocks := by
    unfold lastIndex
    rw [hlength]
  rw [parse_eq h]
  refine ⟨?_, h.head, ?_, ?_, ?_⟩
  · apply hshape.ne_nil
    simpa [← List.length_pos_iff] using h.ne_nil
  · exact h.last.trans hlast.symm
  · change Chain r.next (some 0) (List.range (parseChunk w r.blocks r.protocol chunk).buffers.length)
    rw [hlength]
    exact h.links
  · intro k hk
    change k < lastIndex (parseChunk w r.blocks r.protocol chunk).buffers at hk
    rw [hlast] at hk
    change fullAt (parseChunk w r.blocks r.protocol chunk).buffers k = true
    rw [fullAt_parseChunk w r.protocol chunk h.ne_nil hk.ne]
    exact h.full k hk

lemma grow_blocks {r : Chained} (h : r.InOrder) : r.grow.blocks = chainBlock r.blocks := by
  unfold grow chainBlock lastFull fullAt
  rw [h.last]
  split_ifs <;> rfl

lemma grow_protocol (r : Chained) : r.grow.protocol = r.protocol := by
  unfold grow
  split_ifs <;> rfl

/-- A new block comes behind the last one. -/
lemma InOrder.link {r : Chained} (h : r.InOrder) (hfull : fullAt r.blocks r.lastBuffer = true) :
    r.link.InOrder := by
  have hpos := List.length_pos_iff.mpr h.ne_nil
  have hlength : r.blocks.length = lastIndex r.blocks + 1 := by
    unfold lastIndex
    omega
  have hlast := h.last
  have hlinks := h.links
  rw [hlength, List.range_succ] at hlinks
  refine ⟨by simp [Chained.link], h.head, ?_, ?_, ?_⟩
  · exact hlength.trans (lastIndex_chain h.ne_nil bufferMinSize).symm
  · have hids : List.range r.link.blocks.length =
        List.range (lastIndex r.blocks) ++ [lastIndex r.blocks, r.blocks.length] := by
      simp only [Chained.link, List.length_append, List.length_singleton, hlength, List.range_succ,
        List.append_assoc, List.singleton_append]
    rw [hids]
    apply hlinks.snoc
    · exact if_pos hlast.symm
    · exact (if_neg (by omega)).trans (if_pos rfl)
    · intro d hd
      rw [List.mem_range] at hd
      exact (if_neg (by omega)).trans (if_neg (by omega))
  · intro k hk
    have hk : k < lastIndex r.blocks + 1 := lastIndex_chain h.ne_nil bufferMinSize ▸ hk
    change fullAt (r.blocks ++ [⟨bufferMinSize, []⟩]) k = true
    rw [fullAt_chain (by omega)]
    rcases Nat.lt_succ_iff_lt_or_eq.mp hk with hlt | rfl
    · exact h.full k hlt
    · rwa [hlast] at hfull

lemma InOrder.grow {r : Chained} (h : r.InOrder) : r.grow.InOrder := by
  unfold Chained.grow
  split_ifs with hfull
  · exact h.link hfull
  · exact h

/-- **The linked blocks are the list of blocks**: the reads give the same results, and the
links stay in order. -/
lemma recvAll_refines (w : Layout) {r : Chained} (chunks : List (List UInt8)) (h : r.InOrder) :
    let linked := r.recvAll w chunks
    let rounds := Xpipe.recvAll w r.blocks r.protocol chunks
    linked.request.InOrder ∧ linked.code = rounds.parsed.code ∧
      linked.request.blocks = rounds.parsed.buffers ∧ linked.request.protocol = rounds.parsed.pro ∧
      linked.unread = rounds.unread := by
  induction chunks generalizing r with
  | nil => exact ⟨h, rfl, rfl, rfl, rfl⟩
  | cons c cs ih =>
    have hafter := h.after w c
    have hparse := parse_eq h w c
    simp only [recvAll, Xpipe.recvAll]
    rw [hparse] at hafter ⊢
    split_ifs with hcode
    · have hrest := ih hafter.grow
      rw [grow_blocks hafter, grow_protocol] at hrest
      exact hrest
    · exact ⟨hafter, rfl, rfl, rfl, rfl⟩

/-- The same for the blocks of a new request. -/
lemma init_refines (w : Layout) (first : ℕ) (chunks : List (List UInt8)) :
    let linked := (init first).recvAll w chunks
    let rounds := Xpipe.recvAll w [⟨first, []⟩] protocolInit chunks
    linked.request.InOrder ∧ linked.code = rounds.parsed.code ∧
      linked.request.blocks = rounds.parsed.buffers ∧ linked.request.protocol = rounds.parsed.pro ∧
      linked.unread = rounds.unread :=
  recvAll_refines w chunks (inOrder_init first)

end Chained

/-! ## What the reads leave behind -/

/-- The reads `got` are those up to the first result other than OK, and `unread` the ones
behind them: each but the last of `got` gives OK, and without a last one that does not
nothing is unread. -/
structure Stopped (w : Layout) (bs : List Buffer) (pro : Protocol)
    (chunks got unread : List (List UInt8)) : Prop where
  split : chunks = got ++ unread
  goes : ∀ front, front <+: got → front ≠ got → (recvAll w bs pro front).parsed.code = .ok
  all : (recvAll w bs pro chunks).parsed.code = .ok → unread = []
  some : (recvAll w bs pro chunks).parsed.code ≠ .ok → got ≠ []

/-- The blocks hold what has been read, in their sizes, and after DONE the marks stand
around the parts of the request. -/
lemma recvAll_kept (w : Layout) {first count : ℕ} {bs : List Buffer} {pro : Protocol}
    {read : List UInt8} (chunks : List (List UInt8)) (h : Kept bs pro read)
    (hlaid : Laid first bs count) (hfits : Fits (roomLeft first bs) chunks) :
    let rounds := recvAll w bs pro chunks
    ∃ got, Stopped w bs pro chunks got rounds.unread ∧
      Holds (read ++ got.flatten) (contents rounds.parsed.buffers) ∧
      Laid first rounds.parsed.buffers (count + got.flatten.length) ∧
      (rounds.parsed.code = .done →
        Decoded rounds.parsed.buffers rounds.parsed.pro (read ++ got.flatten)) := by
  induction chunks generalizing bs pro read count with
  | nil =>
    refine ⟨[], ⟨rfl, ?_, fun _ => rfl, fun hcode => absurd rfl hcode⟩, ?_, hlaid, ?_⟩
    · intro front hfront hne
      exact absurd (List.prefix_nil.mp hfront) hne
    · have hholds := h.1.holds []
      rw [List.append_nil (contents bs)] at hholds
      exact hholds
    · intro hcode
      cases hcode
  | cons c cs ih =>
    obtain ⟨-, hroom, hmore⟩ := hfits
    obtain ⟨hok, hdone, hholds⟩ := h.parse w c
    obtain ⟨hlaid', hchained, -, hleft⟩ := laid_round w pro hlaid hroom
    simp only [recvAll]
    by_cases hcode : (parseChunk w bs pro c).code = .ok
    · obtain ⟨got, hstopped, hholds', hlaid'', hdone'⟩ :=
        ih (hok hcode).chainBlock hchained (hleft ▸ hmore)
      simp only [hcode, if_true]
      refine ⟨c :: got, ⟨?_, ?_, ?_, by simp⟩, ?_⟩
      · rw [List.cons_append, ← hstopped.split]
      · rintro (- | ⟨d, front⟩) hfront hne
        · rfl
        · -- the first read gave OK, the others are those of the rest
          obtain ⟨rfl, hrest⟩ := List.cons_prefix_cons.mp hfront
          simp only [recvAll, hcode, if_true]
          exact hstopped.goes front hrest (fun heq => hne (by rw [heq]))
      · simp only [recvAll, hcode, if_true]
        exact hstopped.all
      · rw [List.flatten_cons, ← List.append_assoc, List.length_append, ← Nat.add_assoc]
        exact ⟨hholds', hlaid'', hdone'⟩
    · simp only [hcode, if_false]
      refine ⟨[c], ⟨rfl, ?_, ?_, by simp⟩, ?_⟩
      · intro front hfront hne
        rcases List.prefix_cons_iff.mp hfront with rfl | ⟨front', rfl, hfront'⟩
        · rfl
        · rw [List.prefix_nil.mp hfront'] at hne
          exact absurd rfl hne
      · simp [recvAll, hcode]
      · rw [List.flatten_singleton]
        exact ⟨hholds, hlaid', hdone⟩

lemma map_received (bs : List Buffer) : (List.range bs.length).map (received bs) = filled bs := by
  apply List.ext_getElem
  · rw [List.length_map, List.length_range, filled, List.length_map]
  · intro k hk hk'
    have hlt : k < bs.length := by simpa using hk
    simp [filled, received, List.getElem?_eq_getElem hlt]

/-- The walk from a place behind the text `front` to the end of the chain. -/
lemma walk_body {bs : List Buffer} {p q : Ptr} {front D : List UInt8} {n : ℕ}
    (hcontents : contents bs = front ++ D) (hn : front.length = n) (hp : PointsAt bs p n)
    (hq : PointsAt bs q (contents bs).length) (hlast : q.blk = lastIndex bs) :
    walk ((filled bs).drop p.blk) p.off q.off = D := by
  have hbs : bs ≠ [] := by
    intro hnil
    have hblock := hp.block
    rw [hnil] at hblock
    cases hblock
  have hoff : q.off = (received bs (lastIndex bs)).length := by
    have hend := (pointsAt_last hbs).place
    have hplace := hq.place
    rw [hlast] at hplace
    simp only [index] at hend hplace
    omega
  have hblock : p.blk < (filled bs).length := by
    rw [filled, List.length_map]
    exact hp.block
  have hstop : ((filled bs).drop p.blk).getLastD [] = received bs (lastIndex bs) := by
    have hlt := hp.block
    rw [List.getLastD_eq_getLast?, List.getLast?_drop, if_neg (by omega),
      List.getLast?_eq_getElem?, filled, List.length_map, List.getElem?_map]
    rfl
  have hstart : p.off ≤ (pieceAt ((filled bs).drop p.blk) 0).length := by
    have hin := hp.inBlock
    rw [← pieceAt_filled] at hin
    simpa [pieceAt] using hin
  rw [hoff, ← hstop, walk_eq hstart, ← drop_index, hp.place, ← hn]
  change (contents bs).drop front.length = D
  rw [hcontents, List.drop_left]

namespace Chained

/-- Following the links from `buffers` visits `ids` and ends at `last_buffer`; the blocks
before it are full, and the filled parts are the stream. The first block has `first` bytes
and the others `BUFFER_MIN_SIZE`, and no block holds more than its size. -/
structure Gathers (r : Chained) (first : ℕ) (stream : List UInt8) (ids : List ℕ) : Prop where
  links : Chain r.next (some r.buffers) ids
  last : ids.getLast? = some r.lastBuffer
  full : ∀ k ∈ ids.dropLast, fullAt r.blocks k = true
  holds : Holds stream (ids.map (received r.blocks)).flatten
  sizes : ids.map (fun k => r.blocks[k]?.map Buffer.size) =
    (List.range ids.length).map (fun k => some (blockSize first k))
  inside : ∀ b ∈ r.blocks, b.bytes.length ≤ b.size

/-- The stream is a length line and a body of `data_len` bytes, and the walk from
`data_start` in `data_start_buf` through the links to `data_end` in `last_buffer` gives
this body. -/
def FindsBody (r : Chained) (stream : List UInt8) : Prop :=
  ∃ T H N D p q ids, TypeLine T ∧ All isHeaderByte H ∧ Numeral N ∧
    stream = lineText T H N ++ D ∧ D.length = r.protocol.dataLen ∧
    r.protocol.dataStartBuf = some p.blk ∧ r.protocol.dataStart = some p ∧
    r.protocol.dataEnd = some q ∧ q.blk = r.lastBuffer ∧
    Chain r.next (some p.blk) ids ∧ ids.getLast? = some r.lastBuffer ∧
    walk (ids.map (received r.blocks)) p.off q.off = D

lemma InOrder.getLast {r : Chained} (h : r.InOrder) {k : ℕ} (hk : k < r.blocks.length) :
    ((List.range r.blocks.length).drop k).getLast? = some r.lastBuffer := by
  rw [List.getLast?_drop, List.length_range, if_neg (by omega), List.getLast?_range,
    if_neg (by omega), h.last]
  rfl

/-- A block is full, or the last one, which holds no more than its size. -/
lemma InOrder.inside {r : Chained} {first count : ℕ} (h : r.InOrder)
    (hlaid : Laid first r.blocks count) : ∀ b ∈ r.blocks, b.bytes.length ≤ b.size := by
  intro b hb
  obtain ⟨k, hk, rfl⟩ := List.mem_iff_getElem.mp hb
  rcases Nat.lt_or_ge k (lastIndex r.blocks) with hlt | hge
  · have hfull := h.full k hlt
    unfold fullAt at hfull
    rw [List.getElem?_eq_getElem hk, Option.map_some, Option.getD_some, Buffer.full,
      beq_iff_eq] at hfull
    exact hfull.le
  · obtain rfl : k = lastIndex r.blocks := by
      unfold lastIndex at hge ⊢
      omega
    have hsize := hlaid.sizes _ hk
    have hbounded := hlaid.bounded
    rw [List.getElem?_map, List.getElem?_eq_getElem hk, Option.map_some, Option.some_inj] at hsize
    rw [← hsize, received, List.getElem?_eq_getElem hk] at hbounded
    exact hbounded

lemma InOrder.gathers {r : Chained} {first : ℕ} {stream : List UInt8} (h : r.InOrder)
    (hholds : Holds stream (contents r.blocks)) (hlaid : Laid first r.blocks stream.length) :
    r.Gathers first stream (List.range r.blocks.length) where
  links := by
    rw [h.head]
    exact h.links
  last := h.getLast (List.length_pos_iff.mpr h.ne_nil)
  full := by
    intro k hk
    apply h.full
    rw [List.dropLast_eq_take, List.length_range, List.take_range, List.mem_range] at hk
    exact lt_of_lt_of_le hk (Nat.min_le_left _ _)
  holds := by
    rw [map_received]
    exact hholds
  sizes := by
    rw [List.length_range]
    apply List.map_congr_left
    intro k hk
    rw [← List.getElem?_map]
    exact hlaid.sizes k (List.mem_range.mp hk)
  inside := h.inside hlaid

lemma InOrder.findsBody {r : Chained} {stream : List UInt8} (h : r.InOrder)
    (hdecoded : Decoded r.blocks r.protocol stream) (hput : r.protocol.type = .put) :
    r.FindsBody stream := by
  cases hdecoded with
  | head hnot => exact absurd hput hnot
  | @body T H N D x p q _ hh hn hx htext hsame hlen hbuf hstart hp hstop hlast hq =>
    have hstored : (lineStored T H N x).length = (lineText T H N).length := by
      simp [lineStored, lineText, crlf]
    have hall : stream.length = (contents r.blocks).length := by
      rw [htext, hsame, List.length_append, List.length_append, hstored]
    have hblock : p.blk < (List.range r.blocks.length).length := by
      rw [List.length_range]
      exact hp.block
    have hlinks := h.links
    rw [← List.take_append_drop p.blk (List.range r.blocks.length),
      List.drop_eq_getElem_cons hblock, List.getElem_range] at hlinks
    refine ⟨T, H, N, D, p, q, (List.range r.blocks.length).drop p.blk, hh.typeLine, hh.headers, hn,
      htext, hlen, hbuf, hstart, hstop, hlast.trans h.last.symm, ?_, h.getLast hp.block, ?_⟩
    · rw [List.drop_eq_getElem_cons hblock, List.getElem_range]
      exact hlinks.suffix
    · rw [List.map_drop, map_received]
      exact walk_body hsame hstored hp (hall ▸ hq) hlast

/-- **The chain of buffers holds the stream, and the body of a finished `PUT` lies between
its marks**, for every sequence of reads that the blocks have room for and wherever the
blocks lie. The reads are those up to the first result other than OK. -/
theorem reassembles (w : Layout) (configured : ℕ) (chunks : List (List UInt8))
    (hfits : Fits (requestBufferSize configured) chunks) :
    let rounds := (init (requestBufferSize configured)).recvAll w chunks
    ∃ got ids, chunks = got ++ rounds.unread ∧
      (∀ front, front <+: got → front ≠ got →
        ((init (requestBufferSize configured)).recvAll w front).code = .ok) ∧
      (rounds.code = .ok → rounds.unread = []) ∧ (rounds.code ≠ .ok → got ≠ []) ∧
      rounds.request.Gathers (requestBufferSize configured) got.flatten ids ∧
      (rounds.code = .done → rounds.request.protocol.type = .put →
        rounds.request.FindsBody got.flatten) := by
  intro rounds
  have hrefines := init_refines w (requestBufferSize configured)
  obtain ⟨horder, hcode, hblocks, hpro, hunread⟩ := hrefines chunks
  obtain ⟨got, hstopped, hholds, hlaid, hdone⟩ :=
    recvAll_kept w chunks (kept_init (requestBufferSize configured))
      (laid_init (requestBufferSize configured)) (by rwa [roomLeft_init])
  rw [List.nil_append] at hholds hdone
  rw [Nat.zero_add] at hlaid
  refine ⟨got, _, ?_, ?_, ?_, ?_, horder.gathers ?_ ?_, ?_⟩
  · rw [hunread]
    exact hstopped.split
  · intro front hfront hne
    rw [(hrefines front).2.1]
    exact hstopped.goes front hfront hne
  · rw [hcode, hunread]
    exact hstopped.all
  · rw [hcode]
    exact hstopped.some
  · rw [hblocks]
    exact hholds
  · rw [hblocks]
    exact hlaid
  · intro hend hput
    apply horder.findsBody _ hput
    rw [hblocks, hpro]
    exact hdone (hcode.symm.trans hend)

/-- The body of a `PUT` goes on in a second block. -/
theorem reassembles_two :
    let rounds := (init (requestBufferSize 0)).recvAll .spaced (inTwo putLong.bytes)
    rounds.unread = [] ∧ rounds.request.FindsBody putLong.bytes ∧
      ∃ ids, rounds.request.Gathers (requestBufferSize 0) putLong.bytes ids := by
  intro rounds
  obtain ⟨got, ids, hgot, -, -, -, hgathers, hbody⟩ :=
    reassembles .spaced 0 (inTwo putLong.bytes) putLong_fits
  obtain ⟨-, hcode, -, hpro, hunread⟩ :=
    init_refines .spaced (requestBufferSize 0) (inTwo putLong.bytes)
  have hends : EndsAsOneBuffer .spaced (requestBufferSize 0) putLong (inTwo putLong.bytes) :=
    putLong_whole.ends (spaced_apart 0) (by decide) putLong_fits (inTwo_flatten _)
  obtain ⟨hall, hdone, htype, -, -⟩ := hends
  obtain ⟨hrun, hcomplete⟩ := putLong_whole.run
  have hput := (@parseChunk_one .spaced putLong.bytes.length _ _ _ hrun hcomplete).1
  have hnil : rounds.unread = [] := hunread.trans hall
  have hstream : got.flatten = putLong.bytes := by
    rw [show (init (requestBufferSize 0)).recvAll .spaced (inTwo putLong.bytes) = rounds from rfl,
      hnil, List.append_nil] at hgot
    rw [← hgot, inTwo_flatten]
  rw [hstream] at hgathers hbody
  refine ⟨hnil, hbody (hcode.trans hdone) ?_, ids, hgathers⟩
  rw [hpro]
  exact htype.trans hput

end Chained

end Xpipe
