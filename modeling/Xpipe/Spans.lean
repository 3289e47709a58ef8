import Xpipe.BlockChain
import Xpipe.Segments

/-!
# Where the parts of a request lie

The parser marks the headers and the body of a request by pointers, at different
states and possibly in different calls. `Located` says for every state of the
parser what it has read, what the blocks hold of it, and where in the blocks the
marks stand. The only byte that is changed after its arrival is the CR of the
length line. None of this depends on where the borders of the blocks fall.
-/
namespace Xpipe
open Segments

/-- The filled parts of the blocks. -/
def filled (bs : List Buffer) : List (List UInt8) := bs.map Buffer.bytes

/-- The concatenation of the filled parts. -/
def contents (bs : List Buffer) : List UInt8 := (filled bs).flatten

/-- `p` points behind the first `n` bytes of the chain. -/
structure PointsAt (bs : List Buffer) (p : Ptr) (n : ℕ) : Prop where
  block : p.blk < bs.length
  inBlock : p.off ≤ (received bs p.blk).length
  place : index (filled bs) p.blk p.off = n

lemma pieceAt_filled (bs : List Buffer) (k : ℕ) : pieceAt (filled bs) k = received bs k := by
  unfold pieceAt filled received
  rw [List.getElem?_map]

lemma filled_lengths {bs bs' : List Buffer} (h : SameShape bs bs') :
    (filled bs').map List.length = (filled bs).map List.length := by
  apply List.ext_getElem?
  intro k
  have hlen := h.2 k
  have hsize := h.length
  simp only [received] at hlen
  simp only [filled, List.getElem?_map]
  rcases Nat.lt_or_ge k bs.length with hk | hk
  · rw [List.getElem?_eq_getElem hk, List.getElem?_eq_getElem (by omega)] at hlen ⊢
    simpa using hlen
  · rw [List.getElem?_eq_none hk, List.getElem?_eq_none (by omega)]

lemma PointsAt.shape {bs bs' : List Buffer} {p : Ptr} {n : ℕ} (h : PointsAt bs p n)
    (hshape : SameShape bs bs') : PointsAt bs' p n where
  block := hshape.length ▸ h.block
  inBlock := by
    rw [hshape.2]
    exact h.inBlock
  place := by
    rw [index_congr (filled_lengths hshape)]
    exact h.place

lemma filled_extendLast (bs : List Buffer) (c : List UInt8) :
    filled (extendLast bs c) = (filled bs).modify (bs.length - 1) (fun l => l ++ c) := by
  apply List.ext_getElem?
  intro k
  simp only [filled, extendLast, List.getElem?_map, List.getElem?_modify]
  cases bs[k]? with
  | none => simp
  | some b =>
    simp only [Option.map_some, Option.map_eq_map]
    split_ifs <;> rfl

lemma contents_extendLast {bs : List Buffer} (hbs : bs ≠ []) (c : List UInt8) :
    contents (extendLast bs c) = contents bs ++ c := by
  have hne : filled bs ≠ [] := by simpa [filled] using hbs
  have hlen : (filled bs).length = bs.length := List.length_map ..
  rw [contents, filled_extendLast, ← hlen, flatten_modify_last hne]
  rfl

lemma PointsAt.extend {bs : List Buffer} {p : Ptr} {n : ℕ} (h : PointsAt bs p n)
    (hbs : bs ≠ []) (c : List UInt8) : PointsAt (extendLast bs c) p n where
  block := by
    rw [length_extendLast]
    exact h.block
  inBlock := by
    have hin := h.inBlock
    rw [received_extendLast bs c p.blk hbs]
    split_ifs
    · rw [List.length_append]
      omega
    · exact hin
  place := by
    have hblock := h.block
    rw [← h.place, index, index, filled_extendLast, List.take_modify]
    rw [List.modify_eq_self]
    rw [List.length_take]
    omega

lemma PointsAt.chain {bs : List Buffer} {p : Ptr} {n : ℕ} (h : PointsAt bs p n) (size : ℕ) :
    PointsAt (bs ++ [⟨size, []⟩]) p n where
  block := by
    have hblock := h.block
    rw [List.length_append]
    omega
  inBlock := by
    rw [received_chain]
    exact h.inBlock
  place := by
    rw [← h.place, index, index, filled, List.map_append, List.take_append_of_le_length]
    · rfl
    · rw [List.length_map]
      exact h.block.le

lemma contents_chain (bs : List Buffer) (size : ℕ) :
    contents (bs ++ [⟨size, []⟩]) = contents bs := by
  simp [contents, filled]

/-- The end of the last block is the end of the chain. -/
lemma pointsAt_last {bs : List Buffer} (hbs : bs ≠ []) :
    PointsAt bs ⟨lastIndex bs, (received bs (lastIndex bs)).length⟩ (contents bs).length where
  block := lastIndex_lt hbs
  inBlock := le_refl _
  place := by
    have hlt : lastIndex bs < (filled bs).length := by
      rw [filled, List.length_map]
      exact lastIndex_lt hbs
    have hend : (filled bs).drop (lastIndex bs + 1) = [] := by
      apply List.drop_eq_nil_of_le
      rw [filled, List.length_map, lastIndex]
      omega
    have hlen := congrArg List.length (flatten_split hlt)
    rw [hend, pieceAt_filled, List.flatten_nil, List.append_nil, List.length_append] at hlen
    exact hlen.symm

/-- The store `*(p - 1) = 0` behind the byte in front of `p`. -/
lemma contents_terminate {bs : List Buffer} {blk off n : ℕ} (h : PointsAt bs ⟨blk, off⟩ n) :
    contents (terminate bs blk off) =
      if off = 0 then contents bs else (contents bs).set (n - 1) NUL := by
  unfold terminate
  split_ifs with hoff
  · rfl
  have hblock : blk < (filled bs).length := by
    rw [filled, List.length_map]
    exact h.block
  have hin := h.inBlock
  have hplace := h.place
  have hfilled : filled (setByte bs ⟨blk, off - 1⟩ NUL) =
      (filled bs).modify blk (fun l => l.set (off - 1) NUL) := by
    apply List.ext_getElem?
    intro k
    simp only [filled, setByte, List.getElem?_map, List.getElem?_modify]
    cases bs[k]? with
    | none => simp
    | some b =>
      simp only [Option.map_some, Option.map_eq_map]
      split_ifs <;> rfl
  have hindex : index (filled bs) blk (off - 1) = n - 1 := by
    simp only [index] at hplace ⊢
    omega
  rw [contents, hfilled, flatten_modify_set hblock (by rw [pieceAt_filled]; simp only at hin; omega),
    hindex]
  rfl

/-! ## What the parser has marked -/

/-- The marks of `protocol_t`. -/
structure Marks where
  headersStart : Option Ptr
  headersEnd : Option Ptr
  dataLen : ℕ
  dataStartBuf : Option ℕ
  dataStart : Option Ptr
  dataEnd : Option Ptr

def Protocol.marks (pro : Protocol) : Marks where
  headersStart := pro.headersStart
  headersEnd := pro.headersEnd
  dataLen := pro.dataLen
  dataStartBuf := pro.dataStartBuf
  dataStart := pro.dataStart
  dataEnd := pro.dataEnd

/-- No part of a body is marked. -/
def Marks.NoData (m : Marks) : Prop :=
  m.dataStartBuf = none ∧ m.dataStart = none ∧ m.dataEnd = none

/-- Nothing is marked. -/
def Marks.Clear (m : Marks) : Prop :=
  m.headersStart = none ∧ m.headersEnd = none ∧ m.NoData

/-- Blanks, capital letters, CR and LF. -/
def TypeLine (T : List UInt8) : Prop :=
  ∃ B tok, All isBlank B ∧ tok ≠ [] ∧ All isUpper tok ∧ T = B ++ tok ++ crlf

/-- The headers `H` behind the type line `T` are marked. -/
structure HeadersAt (bs : List Buffer) (m : Marks) (T H : List UInt8) : Prop where
  typeLine : TypeLine T
  headers : All isHeaderByte H
  empty : H = [] → m.headersStart = none ∧ m.headersEnd = none
  marked : H ≠ [] → ∃ p q, m.headersStart = some p ∧ m.headersEnd = some q ∧
    PointsAt bs p T.length ∧ PointsAt bs q (T ++ H).length

/-- A numeral, which is not empty. -/
def Numeral (N : List UInt8) : Prop := N ≠ [] ∧ All isDigit N

/-- The text up to and including the LF of the length line. -/
def lineText (T H N : List UInt8) : List UInt8 := T ++ H ++ crlf ++ N ++ crlf

/-- The length line as the blocks hold it: with the CR, or with NUL in its place. -/
def lineStored (T H N : List UInt8) (x : UInt8) : List UInt8 := T ++ H ++ crlf ++ N ++ [x, LF]

/-- What the parser has read in a state, what the blocks hold of it, and where the
marks stand. The number is the countdown `data_len`. -/
inductive Located (bs : List Buffer) (m : Marks) : Sw → ℕ → List UInt8 → List UInt8 → Prop
  | start {k : ℕ} {B : List UInt8} (blanks : All isBlank B) (clear : m.Clear) :
    Located bs m .start k B B
  | type {k : ℕ} {B tok : List UInt8} (blanks : All isBlank B) (ne_nil : tok ≠ [])
    (upper : All isUpper tok) (clear : m.Clear) : Located bs m .type k (B ++ tok) (B ++ tok)
  | typeCr {k : ℕ} {B tok : List UInt8} (blanks : All isBlank B) (ne_nil : tok ≠ [])
    (upper : All isUpper tok) (clear : m.Clear) :
    Located bs m .typeCr k (B ++ tok ++ [CR]) (B ++ tok ++ [CR])
  | typeLf {k : ℕ} {T : List UInt8} (typeLine : TypeLine T) (clear : m.Clear) :
    Located bs m .typeLf k T T
  | headers {k : ℕ} {T H : List UInt8} {p : Ptr} (typeLine : TypeLine T) (ne_nil : H ≠ [])
    (bytes : All isHeaderByte H) (start : m.headersStart = some p)
    (here : PointsAt bs p T.length) (noData : m.NoData) : Located bs m .headers k (T ++ H) (T ++ H)
  | headersCr {k : ℕ} {T H : List UInt8} (headers : HeadersAt bs m T H) (noData : m.NoData) :
    Located bs m .headersCr k (T ++ H ++ [CR]) (T ++ H ++ [CR])
  | headersLf {k : ℕ} {T H : List UInt8} (headers : HeadersAt bs m T H) (noData : m.NoData) :
    Located bs m .headersLf k (T ++ H ++ crlf) (T ++ H ++ crlf)
  | dataLen {k : ℕ} {T H N : List UInt8} (headers : HeadersAt bs m T H) (numeral : Numeral N)
    (noData : m.NoData) : Located bs m .dataLen k (T ++ H ++ crlf ++ N) (T ++ H ++ crlf ++ N)
  | dataLenCr {k : ℕ} {T H N : List UInt8} (headers : HeadersAt bs m T H) (numeral : Numeral N)
    (noData : m.NoData) :
    Located bs m .dataLenCr k (T ++ H ++ crlf ++ N ++ [CR]) (T ++ H ++ crlf ++ N ++ [CR])
  | dataLenLf {k : ℕ} {T H N : List UInt8} {x : UInt8} (headers : HeadersAt bs m T H)
    (numeral : Numeral N) (stored : x = CR ∨ x = NUL) (noData : m.NoData) (length : m.dataLen = k)
    (pos : 1 ≤ k) (bounded : k < 2 ^ 64) :
    Located bs m .dataLenLf k (lineText T H N) (lineStored T H N x)
  | data {k : ℕ} {T H N D : List UInt8} {x : UInt8} {p : Ptr} (headers : HeadersAt bs m T H)
    (numeral : Numeral N) (stored : x = CR ∨ x = NUL) (ne_nil : D ≠ [])
    (length : k + D.length = m.dataLen) (startBuf : m.dataStartBuf = some p.blk)
    (start : m.dataStart = some p) (here : PointsAt bs p (lineText T H N).length)
    (noEnd : m.dataEnd = none) :
    Located bs m .data k (lineText T H N ++ D) (lineStored T H N x ++ D)

lemma HeadersAt.map {bs bs' : List Buffer} {m : Marks} {T H : List UInt8}
    (h : HeadersAt bs m T H) (hmap : ∀ p n, PointsAt bs p n → PointsAt bs' p n) :
    HeadersAt bs' m T H := by
  refine ⟨h.typeLine, h.headers, h.empty, fun hne => ?_⟩
  obtain ⟨p, q, hp, hq, hstart, hend⟩ := h.marked hne
  exact ⟨p, q, hp, hq, hmap _ _ hstart, hmap _ _ hend⟩

/-- A change of the blocks that keeps the places of the marks. -/
lemma Located.map {bs bs' : List Buffer} {m : Marks} {state : Sw} {k : ℕ}
    {read stored : List UInt8} (h : Located bs m state k read stored)
    (hmap : ∀ p n, PointsAt bs p n → PointsAt bs' p n) : Located bs' m state k read stored := by
  cases h with
  | start hb hc => exact .start hb hc
  | type hb hne hu hc => exact .type hb hne hu hc
  | typeCr hb hne hu hc => exact .typeCr hb hne hu hc
  | typeLf ht hc => exact .typeLf ht hc
  | headers ht hne hh hs hp hd => exact .headers ht hne hh hs (hmap _ _ hp) hd
  | headersCr hh hd => exact .headersCr (hh.map hmap) hd
  | headersLf hh hd => exact .headersLf (hh.map hmap) hd
  | dataLen hh hn hd => exact .dataLen (hh.map hmap) hn hd
  | dataLenCr hh hn hd => exact .dataLenCr (hh.map hmap) hn hd
  | dataLenLf hh hn hx hd hl hpos hlt => exact .dataLenLf (hh.map hmap) hn hx hd hl hpos hlt
  | data hh hn hx hne hl hb hs hp he => exact .data (hh.map hmap) hn hx hne hl hb hs (hmap _ _ hp) he

/-- The blocks hold the stream, but for the CR of a length line, which may have become
NUL. -/
def Holds (stream stored : List UInt8) : Prop :=
  stored = stream ∨ ∃ T H N D, TypeLine T ∧ All isHeaderByte H ∧ Numeral N ∧
    stream = lineText T H N ++ D ∧ stored = lineStored T H N NUL ++ D

lemma holds_line {T H N : List UInt8} {x : UInt8} (ht : TypeLine T) (hh : All isHeaderByte H)
    (hn : Numeral N) (hx : x = CR ∨ x = NUL) (D : List UInt8) :
    Holds (lineText T H N ++ D) (lineStored T H N x ++ D) := by
  rcases hx with rfl | rfl
  · exact Or.inl rfl
  · exact Or.inr ⟨T, H, N, D, ht, hh, hn, rfl, rfl⟩

/-- What has been read lies in the blocks, and what has not been read behind it. -/
lemma Located.holds {bs : List Buffer} {m : Marks} {state : Sw} {k : ℕ}
    {read stored : List UInt8} (h : Located bs m state k read stored) (rest : List UInt8) :
    Holds (read ++ rest) (stored ++ rest) := by
  cases h with
  | dataLenLf hh hn hx => exact holds_line hh.typeLine hh.headers hn hx rest
  | data hh hn hx =>
    rw [List.append_assoc, List.append_assoc]
    exact holds_line hh.typeLine hh.headers hn hx _
  | _ => exact Or.inl rfl

lemma Located.length {bs : List Buffer} {m : Marks} {state : Sw} {k : ℕ}
    {read stored : List UInt8} (h : Located bs m state k read stored) :
    stored.length = read.length := by
  cases h with
  | dataLenLf => simp [lineText, lineStored, crlf]
  | data => simp [lineText, lineStored, crlf]
  | _ => rfl

/-! ## One step -/

/-- The text in front of the CR that the store of a length line replaces. -/
lemma located_dataLenCr {bs : List Buffer} {m : Marks} {k : ℕ} {read stored : List UInt8}
    (h : Located bs m .dataLenCr k read stored) :
    ∃ T H N, HeadersAt bs m T H ∧ Numeral N ∧ m.NoData ∧
      read = T ++ H ++ crlf ++ N ++ [CR] ∧ stored = read := by
  cases h with
  | dataLenCr hh hn hd => exact ⟨_, _, _, hh, hn, hd, rfl, rfl⟩

/-- A step that does not end the length line only adds a byte. -/
lemma located_step {w : Layout} {blk off : ℕ} {c : UInt8} {s s' : Scan} {read stored : List UInt8}
    (hloc : Located s.buffers s.pro.marks s.state s.dataLen read stored)
    (here : PointsAt s.buffers ⟨blk, off⟩ read.length) (hs : s.state ≠ .dataLenCr)
    (h : scanByte w blk off c s = .ok s') :
    s'.buffers = s.buffers ∧
      Located s.buffers s'.pro.marks s'.state s'.dataLen (read ++ [c]) (stored ++ [c]) := by
  unfold scanByte at h
  generalize hst : s.state = st at *
  cases hloc with
  | start hb hc =>
    simp only at h
    split_ifs at h with h1 h2
    · cases h
      rw [hst]
      exact ⟨rfl, .start (hb.snoc h1) hc⟩
    · cases h
      exact ⟨rfl, .type hb (by simp) (All.singleton (by simpa using h2)) hc⟩
  | @type _ B tok hb hne hu hc =>
    simp only at h
    split_ifs at h with h1 h2
    · cases h
      rw [beq_iff_eq.mp h1]
      exact ⟨rfl, .typeCr hb hne hu hc⟩
    · cases h
      rw [hst, List.append_assoc]
      exact ⟨rfl, .type hb (by simp) (hu.snoc (by simpa using h2)) hc⟩
  | @typeCr _ B tok hb hne hu hc =>
    simp only [scanType] at h
    split_ifs at h with h1
    obtain rfl : c = LF := by simpa using h1
    split at h
    · cases h
    · cases h
      exact ⟨rfl, .typeLf ⟨B, tok, hb, hne, hu, by simp [crlf]⟩ hc⟩
  | @typeLf _ T ht hc =>
    simp only at h
    split_ifs at h with h1 h2
    · cases h
      rw [beq_iff_eq.mp h1]
      have hheaders : HeadersAt s.buffers s.pro.marks read [] :=
        ⟨ht, by simp [All], fun _ => ⟨hc.1, hc.2.1⟩, fun hne => absurd rfl hne⟩
      have hnext := Located.headersCr (k := s.dataLen) hheaders hc.2.2
      rw [List.append_nil] at hnext
      exact ⟨rfl, hnext⟩
    · cases h
      exact ⟨rfl, .headers ht (by simp) (All.singleton (by simpa using h2)) rfl here hc.2.2⟩
  | @headers _ T H p ht hne hh hstart hp hd =>
    simp only at h
    split_ifs at h with h1 h2
    · cases h
      rw [beq_iff_eq.mp h1]
      exact ⟨rfl, .headersCr ⟨ht, hh, fun h0 => absurd h0 hne, fun _ =>
        ⟨p, ⟨blk, off⟩, hstart, rfl, hp, here⟩⟩ hd⟩
    · cases h
      rw [hst, List.append_assoc]
      exact ⟨rfl, .headers ht (by simp) (hh.snoc (by simpa using h2)) hstart hp hd⟩
  | @headersCr _ T H hh hd =>
    simp only at h
    split_ifs at h with h1
    obtain rfl : c = LF := by simpa using h1
    cases h
    have hnext := Located.headersLf (k := s.dataLen) hh hd
    rw [crlf, ← List.singleton_append, ← List.append_assoc] at hnext
    exact ⟨rfl, hnext⟩
  | headersLf hh hd =>
    simp only at h
    split_ifs at h with h1 h2
    cases h
    exact ⟨rfl, .dataLen ⟨hh.typeLine, hh.headers, hh.empty, hh.marked⟩
      ⟨by simp, All.singleton (by simpa using h2)⟩ hd⟩
  | dataLen hh hn hd =>
    simp only at h
    split_ifs at h with h1 h2
    · cases h
      rw [beq_iff_eq.mp h1]
      exact ⟨rfl, .dataLenCr ⟨hh.typeLine, hh.headers, hh.empty, hh.marked⟩ hn hd⟩
    · cases h
      rw [hst, List.append_assoc]
      exact ⟨rfl, .dataLen hh ⟨by simp, hn.2.snoc (by simpa using h2)⟩ hd⟩
  | dataLenCr => exact absurd rfl hs
  | dataLenLf hh hn hx hd hl hpos hlt =>
    simp only at h
    cases h
    refine ⟨rfl, .data ⟨hh.typeLine, hh.headers, hh.empty, hh.marked⟩ hn hx (by simp) ?_ rfl rfl here
      hd.2.2⟩
    have hlen : s.pro.dataLen = s.dataLen := hl
    simp only [Protocol.marks, hlen, List.length_singleton, toSizeT]
    omega
  | @data _ T H N D x p hh hn hx hne hl hb hstart hp he =>
    simp only at h
    split_ifs at h with h1
    cases h
    rw [List.append_assoc, List.append_assoc]
    refine ⟨rfl, .data hh hn hx (by simp) ?_ hb hstart hp he⟩
    rw [← hl, List.length_append, List.length_singleton]
    simp only
    omega

/-- The step that ends the length line stores NUL over its CR, unless that byte lies
in an earlier block. -/
lemma located_lengthLf {w : Layout} {blk off : ℕ} {c : UInt8} {s s' : Scan}
    {read stored : List UInt8}
    (hloc : Located s.buffers s.pro.marks s.state s.dataLen read stored)
    (hs : s.state = .dataLenCr) (h : scanByte w blk off c s = .ok s') :
    s'.buffers = terminate s.buffers blk off ∧ c = LF ∧ ∃ T H N, HeadersAt s.buffers s.pro.marks T H ∧
      Numeral N ∧ read = T ++ H ++ crlf ++ N ++ [CR] ∧ stored = read ∧
      Located s'.buffers s'.pro.marks s'.state s'.dataLen (lineText T H N)
        (lineStored T H N (if off = 0 then CR else NUL)) := by
  rw [hs] at hloc
  obtain ⟨T, H, N, hh, hn, hd, hread, hstored⟩ := located_dataLenCr hloc
  simp only [scanByte, hs, scanDataLen] at h
  split_ifs at h with h1 h2
  obtain rfl : c = LF := by simpa using h1
  cases h
  refine ⟨rfl, rfl, T, H, N, hh, hn, hread, hstored, ?_⟩
  have hmap := hh.map (fun p n hp => hp.shape (sameShape_terminate s.buffers blk off))
  refine .dataLenLf ⟨hh.typeLine, hh.headers, hh.empty, hmap.marked⟩ hn ?_ hd rfl
    (Nat.one_le_iff_ne_zero.mpr h2) ?_
  · split_ifs
    · exact Or.inl rfl
    · exact Or.inr rfl
  · simp only [toSizeT]
    omega

/-- A store over the last byte of a text. -/
lemma set_last (pre rest : List UInt8) (a v : UInt8) :
    (pre ++ [a] ++ rest).set ((pre ++ [a]).length - 1) v = pre ++ [v] ++ rest := by
  rw [List.length_append, List.length_singleton, Nat.add_sub_cancel, List.append_assoc,
    List.set_append_right _ _ (le_refl _), Nat.sub_self, List.append_assoc]
  rfl

/-- The blocks after the store at the end of the length line. -/
lemma contents_lengthLf {bs : List Buffer} {blk off : ℕ} {T H N rest : List UInt8}
    (here : PointsAt bs ⟨blk, off⟩ (T ++ H ++ crlf ++ N ++ [CR]).length)
    (h : contents bs = T ++ H ++ crlf ++ N ++ [CR] ++ LF :: rest) :
    contents (terminate bs blk off) =
      lineStored T H N (if off = 0 then CR else NUL) ++ rest := by
  rw [contents_terminate here, h]
  split_ifs
  · simp [lineStored]
  · rw [set_last]
    simp [lineStored]

/-- The scan of the last block, with the next byte at `off`: what has been read, and
where it lies. -/
structure Placed (blk off : ℕ) (s : Scan) (read : List UInt8) : Prop where
  here : PointsAt s.buffers ⟨blk, off⟩ read.length
  located : ∃ stored, Located s.buffers s.pro.marks s.state s.dataLen read stored ∧
    contents s.buffers = stored ++ (received s.buffers blk).drop off

lemma drop_of_getElem? {l : List UInt8} {n : ℕ} {c : UInt8} (h : l[n]? = some c) :
    l.drop n = c :: l.drop (n + 1) := by
  obtain ⟨hn, rfl⟩ := List.getElem?_eq_some_iff.mp h
  exact List.drop_eq_getElem_cons hn

/-- **One step keeps track of where the request lies.** -/
lemma Placed.step {w : Layout} {blk off : ℕ} {c : UInt8} {s s' : Scan} {read : List UInt8}
    (h : Placed blk off s read) (hc : (received s.buffers blk)[off]? = some c)
    (hstep : scanByte w blk off c s = .ok s') : Placed blk (off + 1) s' (read ++ [c]) := by
  obtain ⟨stored, hloc, hcontents⟩ := h.located
  have hshape := scanByte_shape hstep
  have hrest := drop_received_scanByte hstep
  rw [drop_of_getElem? hc] at hcontents
  have hhere : PointsAt s'.buffers ⟨blk, off + 1⟩ (read ++ [c]).length := by
    refine PointsAt.shape ⟨h.here.block, ?_, ?_⟩ hshape
    · exact (List.getElem?_eq_some_iff.mp hc).1
    · rw [List.length_append, List.length_singleton, ← h.here.place]
      exact (Nat.add_assoc _ _ _).symm
  refine ⟨hhere, ?_⟩
  rw [hrest]
  by_cases hs : s.state = .dataLenCr
  · obtain ⟨hbuffers, rfl, T, H, N, hh, hn, hread, hstored, hnext⟩ := located_lengthLf hloc hs hstep
    have htext : read ++ [LF] = lineText T H N := by
      rw [hread]
      simp [lineText, crlf]
    refine ⟨_, htext ▸ hnext, ?_⟩
    rw [hbuffers]
    exact contents_lengthLf (hread ▸ h.here) (by rw [hcontents, hstored, hread])
  · obtain ⟨hbuffers, hnext⟩ := located_step hloc h.here hs hstep
    rw [hbuffers]
    exact ⟨stored ++ [c], hnext, by rw [hcontents, List.append_assoc]; rfl⟩

/-- A step that stops the scan leaves the bytes where they were. -/
lemma Placed.stops {w : Layout} {blk off : ℕ} {c : UInt8} {s : Scan} {read : List UInt8}
    {e : Code × Scan} (h : Placed blk off s read) (hc : (received s.buffers blk)[off]? = some c)
    (hstep : scanByte w blk off c s = .error e) :
    Holds (read ++ (received s.buffers blk).drop off) (contents e.2.buffers) := by
  obtain ⟨stored, hloc, hcontents⟩ := h.located
  rcases scanByte_error_buffers hstep with hsame | ⟨hs, rfl, hset⟩
  · rw [hsame, hcontents]
    exact hloc.holds _
  · rw [hs] at hloc
    obtain ⟨T, H, N, hh, hn, -, hread, hstored⟩ := located_dataLenCr hloc
    rw [drop_of_getElem? hc] at hcontents ⊢
    rw [hset, contents_lengthLf (hread ▸ h.here) (by rw [hcontents, hstored, hread]), hread]
    have htext : ∀ rest, T ++ H ++ crlf ++ N ++ [CR] ++ LF :: rest = lineText T H N ++ rest := by
      simp [lineText, crlf]
    rw [htext]
    refine holds_line hh.typeLine hh.headers hn ?_ _
    split_ifs
    · exact Or.inl rfl
    · exact Or.inr rfl

/-! ## A call -/

/-- **A scan keeps track of where the request lies**, and leaves the bytes where they
were when it is stopped. -/
lemma Placed.scan {w : Layout} {blk off : ℕ} {s : Scan} {read : List UInt8} (h : Placed blk off s read)
    (cs : List UInt8) (hcs : (received s.buffers blk).drop off = cs) :
    (∀ s', Xpipe.scan w blk cs.length off s = .ok s' →
      Placed blk (off + cs.length) s' (read ++ cs)) ∧
    ∀ e, Xpipe.scan w blk cs.length off s = .error e → Holds (read ++ cs) (contents e.2.buffers) := by
  induction cs generalizing off s read with
  | nil =>
    refine ⟨fun s' hs' => ?_, fun e he => ?_⟩
    · cases hs'
      simpa using h
    · cases he
  | cons c cs ih =>
    have hc : (received s.buffers blk)[off]? = some c := by
      have h0 : ((received s.buffers blk).drop off)[0]? = some c := by simp [hcs]
      rwa [List.getElem?_drop, Nat.add_zero] at h0
    have htouch : Placed blk off (s.touch blk off) read := ⟨h.here, h.located⟩
    rw [List.length_cons, scan_succ, hc, Option.getD_some]
    cases hstep : scanByte w blk off c (s.touch blk off) with
    | error e =>
      refine ⟨fun s' hs' => ?_, fun e' he' => ?_⟩
      · cases hs'
      · cases he'
        rw [← hcs]
        exact htouch.stops hc hstep
    | ok s₁ =>
      have hnext := htouch.step hc hstep
      have hrest : (received s₁.buffers blk).drop (off + 1) = cs := by
        rw [drop_received_scanByte hstep]
        change (received s.buffers blk).drop (off + 1) = cs
        rw [← List.drop_drop, hcs]
        rfl
      obtain ⟨hok, herror⟩ := ih hnext hrest
      simp only [List.append_assoc, List.singleton_append] at hok herror
      refine ⟨fun s' hs' => ?_, herror⟩
      rw [show off + (cs.length + 1) = off + 1 + cs.length by omega]
      exact hok s' hs'

/-- The parser between two calls, with `read` all that came before. -/
def Kept (bs : List Buffer) (pro : Protocol) (read : List UInt8) : Prop :=
  Located bs pro.marks pro.state pro.tmpDataLen read (contents bs) ∧ bs ≠ []

lemma kept_init (size : ℕ) : Kept [⟨size, []⟩] protocolInit [] :=
  ⟨.start (by simp [All]) ⟨rfl, rfl, rfl, rfl, rfl⟩, by simp⟩

lemma Kept.chain {bs : List Buffer} {pro : Protocol} {read : List UInt8} (h : Kept bs pro read)
    (size : ℕ) : Kept (bs ++ [⟨size, []⟩]) pro read := by
  refine ⟨?_, by simp⟩
  rw [contents_chain]
  exact h.1.map (fun p n hp => hp.chain size)

lemma Kept.chainBlock {bs : List Buffer} {pro : Protocol} {read : List UInt8}
    (h : Kept bs pro read) : Kept (chainBlock bs) pro read := by
  unfold Xpipe.chainBlock
  split_ifs
  · exact h.chain _
  · exact h

/-- The scan that a call starts. -/
lemma Kept.entry {bs : List Buffer} {pro : Protocol} {read : List UInt8} (h : Kept bs pro read)
    (chunk : List UInt8) :
    Placed (lastIndex bs) (received bs (lastIndex bs)).length (entry bs pro chunk) read := by
  obtain ⟨hloc, hbs⟩ := h
  have hlast := pointsAt_last hbs
  rw [hloc.length] at hlast
  refine ⟨hlast.extend hbs chunk, contents bs, hloc.map (fun p n hp => hp.extend hbs chunk), ?_⟩
  have hrec := received_last_extend hbs chunk
  change contents (extendLast bs chunk) = _
  rw [contents_extendLast hbs, Xpipe.entry, hrec, List.drop_left]

/-- What DONE leaves behind: the headers of the request are marked, and of a `PUT` also
the body, up to the end of the last block. -/
inductive Decoded (bs : List Buffer) (pro : Protocol) (stream : List UInt8) : Prop
  | head {T H : List UInt8} (notPut : pro.type ≠ .put) (headers : HeadersAt bs pro.marks T H)
    (noData : pro.marks.NoData) (text : stream = T ++ H ++ crlf) (same : contents bs = stream)
  | body {T H N D : List UInt8} {x : UInt8} {p q : Ptr} (put : pro.type = .put)
    (headers : HeadersAt bs pro.marks T H) (numeral : Numeral N) (stored : x = CR ∨ x = NUL)
    (text : stream = lineText T H N ++ D) (same : contents bs = lineStored T H N x ++ D)
    (length : D.length = pro.dataLen) (startBuf : pro.dataStartBuf = some p.blk)
    (start : pro.dataStart = some p) (here : PointsAt bs p (lineText T H N).length)
    (stop : pro.dataEnd = some q) (last : q.blk = lastIndex bs)
    (there : PointsAt bs q stream.length)

/-- The tests after the loop find the request complete. -/
lemma decoded_finishScan {s : Scan} {stream : List UInt8} {stop : Ptr}
    (hloc : Located s.buffers s.pro.marks s.state s.dataLen stream (contents s.buffers))
    (hlast : stop.blk = lastIndex s.buffers) (hstop : PointsAt s.buffers stop stream.length)
    (hdone : (finishScan s stop).code = .done) :
    Decoded (finishScan s stop).buffers (finishScan s stop).pro stream := by
  unfold finishScan at hdone ⊢
  split_ifs at hdone ⊢ with h1 h2
  · obtain ⟨-, hput, hs⟩ := h1
    rw [hs] at hloc
    generalize hcontents : contents s.buffers = stored at hloc
    cases hloc with
    | headersLf hh hd => exact .head hput hh hd rfl hcontents
  · obtain ⟨hput, hs, hzero⟩ := h2
    rw [hs] at hloc
    generalize hcontents : contents s.buffers = stored at hloc
    cases hloc with
    | data hh hn hx hne hl hb hstart hp he =>
      refine .body hput ⟨hh.typeLine, hh.headers, hh.empty, hh.marked⟩ hn hx rfl hcontents ?_ hb
        hstart hp rfl hlast hstop
      rw [hzero, Nat.zero_add] at hl
      exact hl

/-- **What a call leaves behind.** -/
lemma Kept.parse {bs : List Buffer} {pro : Protocol} {read : List UInt8} (w : Layout)
    (h : Kept bs pro read) (chunk : List UInt8) :
    ((parseChunk w bs pro chunk).code = .ok →
      Kept (parseChunk w bs pro chunk).buffers (parseChunk w bs pro chunk).pro (read ++ chunk)) ∧
    ((parseChunk w bs pro chunk).code = .done →
      Decoded (parseChunk w bs pro chunk).buffers (parseChunk w bs pro chunk).pro
        (read ++ chunk)) ∧
    Holds (read ++ chunk) (contents (parseChunk w bs pro chunk).buffers) := by
  have hbs := h.2
  have hdrop : (received (Xpipe.entry bs pro chunk).buffers (lastIndex bs)).drop
      (received bs (lastIndex bs)).length = chunk := by
    rw [Xpipe.entry, received_last_extend hbs, List.drop_left]
  obtain ⟨hok, herror⟩ := (h.entry chunk).scan (w := w) chunk hdrop
  have hshape := parseChunk_shape w bs pro chunk
  rw [parseChunk_eq] at hshape ⊢
  cases hscan : scan w (lastIndex bs) chunk.length (received bs (lastIndex bs)).length
      (Xpipe.entry bs pro chunk) with
  | error e =>
    have hcode := scan_error hscan
    refine ⟨fun hbad => absurd hbad hcode.1, fun hbad => absurd hbad hcode.2, herror e hscan⟩
  | ok s =>
    obtain ⟨hhere, stored, hloc, hcontents⟩ := hok s hscan
    rw [hscan] at hshape
    have hbuffers (stop : Ptr) : (finishScan s stop).buffers = s.buffers := by
      unfold finishScan
      split_ifs <;> rfl
    simp only [hbuffers] at hshape ⊢
    obtain ⟨hlast, hlen⟩ := received_length_of_shape hbs hshape
    have hsame : contents s.buffers = stored := by
      rw [hlast] at hlen
      rw [hcontents, List.drop_eq_nil_of_le hlen.le, List.append_nil]
    rw [← hsame] at hloc
    refine ⟨fun hcode => ?_, fun hcode => ?_, ?_⟩
    · rw [finishScan_of_not_complete (finishScan_ok hcode)]
      exact ⟨hloc, hshape.ne_nil (by simpa [← List.length_pos_iff] using hbs)⟩
    · have hdone := decoded_finishScan hloc hlast.symm hhere hcode
      rwa [hbuffers] at hdone
    · simpa using hloc.holds []

end Xpipe
