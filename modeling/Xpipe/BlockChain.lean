import Xpipe.RequestTracking

/-!
# Requests over a chain of blocks

`tcp_server_recv` reads into `last_buffer`, and `tcp_request_process` chains a
new block when that one is full after an OK. The parser keeps raw pointers, so
a token that a block border cuts is a problem: the type is measured by a
difference of pointers into two blocks, and the numeral is walked off the end
of its block. `recvAll_finished_iff` says exactly which requests survive: those
whose type and numeral no border cuts.
-/
namespace Xpipe
open Machines

/-- `BUFFER_MIN_SIZE`. -/
def bufferMinSize : ℕ := 1024

/-- `BUFFER_MAX_SIZE`. -/
def bufferMaxSize : ℕ := 1024 * 1204 * 10

/-- The capacity that `tcp_request_init` gives to the buffers of a request, for
a configured `request_buf_size`. -/
def requestBufferSize (configured : ℕ) : ℕ :=
  if configured < bufferMinSize then bufferMinSize
  else if configured > bufferMaxSize then bufferMaxSize
  else configured

/-- `buf->last == buf->end` for `last_buffer`. -/
def lastFull (bs : List Buffer) : Bool := (bs[lastIndex bs]?.map Buffer.full).getD false

/-- `tcp_request_process` after OK, when memory for a block is there. -/
def chainBlock (bs : List Buffer) : List Buffer :=
  if lastFull bs then bs ++ [⟨bufferMinSize, []⟩] else bs

/-- Where the calls stopped: the last result, and the reads that came after it. -/
structure Rounds where
  parsed : Parsed
  unread : List (List UInt8)
  deriving DecidableEq, Repr

/-- Reads of one request until the first result other than OK. -/
def recvAll (w : Layout) : List Buffer → Protocol → List (List UInt8) → Rounds
  | bs, pro, [] => ⟨⟨.ok, bs, pro⟩, []⟩
  | bs, pro, c :: cs =>
    let r := parseChunk w bs pro c
    if r.code = .ok then recvAll w (chainBlock r.buffers) r.pro cs else ⟨r, cs⟩

/-- The reads that a connection can make with `room` bytes left in the block:
each returns at least one byte and at most what fits. -/
def Fits : ℕ → List (List UInt8) → Prop
  | _, [] => True
  | room, c :: cs => c ≠ [] ∧ c.length ≤ room ∧
      Fits (if c.length = room then bufferMinSize else room - c.length) cs

instance decidableFits : (room : ℕ) → (cs : List (List UInt8)) → Decidable (Fits room cs)
  | _, [] => .isTrue trivial
  | room, c :: cs =>
    have := decidableFits (if c.length = room then bufferMinSize else room - c.length) cs
    inferInstanceAs (Decidable (c ≠ [] ∧ c.length ≤ room ∧ Fits _ cs))

/-- The capacity of block `k`. -/
def blockSize (first k : ℕ) : ℕ := if k = 0 then first else bufferMinSize

/-! ## Where the bytes lie -/

/-- The chain holds `count` bytes, in a block of `first` bytes and blocks of
`BUFFER_MIN_SIZE` bytes behind it. -/
structure Laid (first : ℕ) (bs : List Buffer) (count : ℕ) : Prop where
  ne_nil : bs ≠ []
  sizes : ∀ k < bs.length, (bs.map Buffer.size)[k]? = some (blockSize first k)
  bounded : (received bs (lastIndex bs)).length ≤ blockSize first (lastIndex bs)
  count : count + blockSize first (lastIndex bs) =
    first + bufferMinSize * lastIndex bs + (received bs (lastIndex bs)).length

lemma lastIndex_lt {bs : List Buffer} (h : bs ≠ []) : lastIndex bs < bs.length := by
  have := List.length_pos_iff.mpr h
  unfold lastIndex
  omega

lemma laid_init (first : ℕ) : Laid first [⟨first, []⟩] 0 where
  ne_nil := by simp
  sizes := by
    intro k hk
    obtain rfl : k = 0 := by simpa using hk
    rfl
  bounded := by simp [received, lastIndex]
  count := by simp [received, lastIndex, blockSize]

lemma Laid.extend {first count : ℕ} {bs bs' : List Buffer} {chunk : List UInt8}
    (h : Laid first bs count) (hshape : SameShape (extendLast bs chunk) bs')
    (hroom : chunk.length ≤ blockSize first (lastIndex bs) - (received bs (lastIndex bs)).length) :
    Laid first bs' (count + chunk.length) := by
  obtain ⟨hlast, hlen⟩ := received_length_of_shape h.ne_nil hshape
  have hbounded := h.bounded
  have hcount := h.count
  refine ⟨?_, ?_, ?_, ?_⟩
  · apply hshape.ne_nil
    simpa [← List.length_pos_iff] using h.ne_nil
  · intro k hk
    rw [hshape.1, sizes_extendLast]
    apply h.sizes
    rwa [hshape.length, length_extendLast] at hk
  · rw [hlen, hlast]
    omega
  · rw [hlen, hlast]
    omega

lemma Laid.lastFull_iff {first count : ℕ} {bs : List Buffer} (h : Laid first bs count) :
    lastFull bs = true ↔
      (received bs (lastIndex bs)).length = blockSize first (lastIndex bs) := by
  have hlt := lastIndex_lt h.ne_nil
  have hsize := h.sizes _ hlt
  rw [List.getElem?_map, List.getElem?_eq_getElem hlt, Option.map_some, Option.some_inj] at hsize
  simp [lastFull, received, List.getElem?_eq_getElem hlt, Buffer.full, hsize]

lemma received_chain (bs : List Buffer) (size k : ℕ) :
    received (bs ++ [⟨size, []⟩]) k = received bs k := by
  unfold received
  rcases lt_trichotomy k bs.length with hk | hk | hk
  · rw [List.getElem?_append_left hk]
  · subst hk
    simp
  · rw [List.getElem?_eq_none (by simp; omega), List.getElem?_eq_none (by omega)]

lemma lastIndex_chain {bs : List Buffer} (h : bs ≠ []) (size : ℕ) :
    lastIndex (bs ++ [⟨size, []⟩]) = lastIndex bs + 1 := by
  have := List.length_pos_iff.mpr h
  simp [lastIndex]
  omega

lemma received_chain_last {bs : List Buffer} (h : bs ≠ []) (size : ℕ) :
    received (bs ++ [⟨size, []⟩]) (lastIndex (bs ++ [⟨size, []⟩])) = [] := by
  have hlt := lastIndex_lt h
  have hle : bs.length ≤ lastIndex bs + 1 := by
    unfold lastIndex
    omega
  rw [received_chain, lastIndex_chain h, received, List.getElem?_eq_none hle]
  rfl

lemma Laid.chain {first count : ℕ} {bs : List Buffer} (h : Laid first bs count)
    (hfull : lastFull bs = true) : Laid first (bs ++ [⟨bufferMinSize, []⟩]) count := by
  have hfull := h.lastFull_iff.mp hfull
  have hcount := h.count
  have hlast := lastIndex_chain h.ne_nil bufferMinSize
  have hnil := received_chain_last h.ne_nil bufferMinSize
  refine ⟨by simp, ?_, ?_, ?_⟩
  · intro k hk
    rw [List.length_append, List.length_singleton] at hk
    rw [List.map_append]
    rcases Nat.lt_or_ge k bs.length with hlt | hge
    · rw [List.getElem?_append_left (by simpa using hlt)]
      exact h.sizes k hlt
    · have hpos := List.length_pos_iff.mpr h.ne_nil
      obtain rfl : k = bs.length := by omega
      simp [blockSize, h.ne_nil]
  · simp [hnil]
  · rw [hnil, hlast, blockSize, if_neg (by omega), List.length_nil, Nat.mul_add]
    omega

/-- A call keeps the shape of the chain it was given. -/
lemma parseChunk_shape (w : Layout) (bs : List Buffer) (pro : Protocol) (chunk : List UInt8) :
    SameShape (extendLast bs chunk) (parseChunk w bs pro chunk).buffers := by
  rw [parseChunk_eq]
  cases hs : scan w (lastIndex bs) chunk.length (received bs (lastIndex bs)).length
      (entry bs pro chunk) with
  | error e => exact scan_error_shape hs
  | ok s =>
    have hkeep (stop : Ptr) : (finishScan s stop).buffers = s.buffers := by
      unfold finishScan
      split_ifs <;> rfl
    simp only [hkeep]
    exact scan_shape hs

/-! ## Tokens that a border has cut -/

/-- The parser has lost a token: it has touched a byte it has not received, or
it is inside a token that started in an earlier block. -/
inductive Torn (first blk off : ℕ) (s : Scan) : Prop
  | unclean (clean : s.pro.clean = false)
  | type (q : Ptr) (state : s.state = .type) (start : s.pro.start = some q) (earlier : q.blk < blk)
      (inBlock : q.off ≤ blockSize first q.blk)
  | typeCr (q e : Ptr) (state : s.state = .typeCr) (start : s.pro.start = some q)
      (tokEnd : s.pro.tokEnd = some e) (differ : q.blk ≠ e.blk)
      (startIn : q.off ≤ blockSize first q.blk) (endIn : e.off ≤ blockSize first e.blk)
  | numeral (q : Ptr) (state : s.state = .dataLen ∨ s.state = .dataLenCr)
      (start : s.pro.start = some q) (earlier : q.blk < blk)
      (digits : All isDigit (inside s.buffers (some q)))
  | numeralLf (state : s.state = .dataLenCr) (first : off = 0)

lemma scanByte_unclean {w : Layout} {blk off : ℕ} {c : UInt8} {s s' : Scan}
    (h : scanByte w blk off c s = .ok s') (hu : s.pro.clean = false) : s'.pro.clean = false := by
  unfold scanByte at h
  cases hs : s.state with
  | typeCr =>
    simp only [hs, scanType, hu, Bool.false_and] at h
    split_ifs at h
    split at h <;> cases h
    rfl
  | dataLenCr =>
    simp only [hs, scanDataLen, hu, Bool.false_and] at h
    split_ifs at h
    cases h
    rfl
  | dataLenLf =>
    simp only [hs] at h
    cases h
    exact hu
  | _ =>
    simp only [hs] at h
    split_ifs at h <;> cases h <;> exact hu

/-- Pointers into two blocks are never as close as a type is long. -/
lemma lookupType_apart {w : Layout} {first : ℕ} {q e : Ptr} (hw : w.Apart (blockSize first))
    (hne : q.blk ≠ e.blk) (hq : q.off ≤ blockSize first q.blk)
    (he : e.off ≤ blockSize first e.blk) (text : List UInt8) :
    lookupType text (w.addr (some e) - w.addr (some q)) = (none, 0) := by
  have hfar : w.addr (some e) - w.addr (some q) < 0 ∨ 5 < w.addr (some e) - w.addr (some q) := by
    have hapart := hw q.blk e.blk hne
    simp only [Layout.addr, bufferHeader] at hapart ⊢
    omega
  unfold lookupType
  rw [if_neg (by omega), if_neg (by omega), if_neg (by omega)]

lemma takeWhile_digits {l x : List UInt8} (h : All isDigit l) :
    (l ++ x).takeWhile isDigit = l ++ x.takeWhile isDigit :=
  List.takeWhile_append_of_pos h

/-- A numeral without a terminator behind it is walked off its end. -/
lemma atoiReads_digits {l : List UInt8} (x : List UInt8) (h : All isDigit l) :
    l.length < atoiReads (l ++ x) := by
  cases l with
  | nil =>
    simp only [atoiReads, strtolReads, List.length_nil]
    omega
  | cons c l =>
    obtain ⟨hspace, hminus, hplus, -⟩ := isDigit_not_space (h c (by simp))
    have hcstring : cString (c :: l ++ x) = c :: l ++ cString x := by
      unfold cString
      exact List.takeWhile_append_of_pos
        (fun d hd => by simp [(isDigit_not_space (h d hd)).2.2.2])
    have hparts : splitSign ((c :: l ++ cString x).dropWhile isSpace) =
        (false, c :: l ++ cString x) := by
      simp [hspace, splitSign, hminus, hplus]
    simp only [atoiReads, hcstring, strtolReads, hparts, takeWhile_digits h, List.length_append]
    omega

/-- A numeral that started in an earlier block costs the parser its cleanness. -/
lemma scanDataLen_torn {w : Layout} {blk off : ℕ} {s s' : Scan} {q : Ptr}
    (h : scanDataLen w blk off s = .ok s') (hstart : s.pro.start = some q) (hq : q.blk < blk)
    (hdigits : All isDigit (inside s.buffers (some q))) : s'.pro.clean = false := by
  have hin : inside (terminate s.buffers blk off) s.pro.start = inside s.buffers (some q) := by
    rw [hstart, inside, inside, received_terminate, if_neg (by omega)]
  have hmem : memoryAt w (terminate s.buffers blk off) s.pro.start =
      inside s.buffers (some q) ++ w.beyond q.blk := by
    rw [← hin, hstart]
    rfl
  have hrun := atoiReads_digits (w.beyond q.blk) hdigits
  have hwithin : within (atoiReads (memoryAt w (terminate s.buffers blk off) s.pro.start))
      (inside (terminate s.buffers blk off) s.pro.start) = false := by
    rw [hmem, hin, within, decide_eq_false_iff_not]
    omega
  simp only [scanDataLen, hwithin, Bool.and_false] at h
  split_ifs at h
  cases h
  rfl

/-- **A lost token is not found again**, whatever bytes follow. -/
theorem scanByte_torn {w : Layout} {first blk off : ℕ} {c : UInt8} {s s' : Scan}
    (hw : w.Apart (blockSize first)) (hoff : off ≤ blockSize first blk)
    (ht : Torn first blk off s) (h : scanByte w blk off c s = .ok s') :
    Torn first blk (off + 1) s' := by
  cases ht with
  | unclean hclean => exact .unclean (scanByte_unclean h hclean)
  | type q hs hstart hq hin =>
    simp only [scanByte, hs] at h
    split_ifs at h
    · cases h
      exact .typeCr q ⟨blk, off⟩ rfl hstart rfl (by simp; omega) hin hoff
    · cases h
      exact .type q hs hstart hq hin
  | typeCr q e hs hstart hend hne hq he =>
    simp only [scanByte, hs, scanType, hstart, hend, lookupType_apart hw hne hq he] at h
    split_ifs at h
  | numeral q hs hstart hq hdigits =>
    rcases hs with hs | hs
    · simp only [scanByte, hs] at h
      split_ifs at h
      · cases h
        exact .numeral q (Or.inr rfl) hstart hq hdigits
      · cases h
        exact .numeral q (Or.inl hs) hstart hq hdigits
    · simp only [scanByte, hs] at h
      split_ifs at h
      exact .unclean (scanDataLen_torn h hstart hq hdigits)
  | numeralLf hs hfirst =>
    simp only [scanByte, hs, scanDataLen, hfirst, lt_irrefl, decide_false, Bool.and_false,
      Bool.false_and] at h
    split_ifs at h
    cases h
    exact .unclean rfl

lemma Torn.touch {first blk off : ℕ} {s : Scan} (h : Torn first blk off s) (k m : ℕ) :
    Torn first blk off (s.touch k m) := by
  cases h with
  | unclean hclean => exact .unclean (by simp [Scan.touch, hclean])
  | type q hs hstart hq hin => exact .type q hs hstart hq hin
  | typeCr q e hs hstart hend hne hq he => exact .typeCr q e hs hstart hend hne hq he
  | numeral q hs hstart hq hdigits => exact .numeral q hs hstart hq hdigits
  | numeralLf hs hfirst => exact .numeralLf hs hfirst

lemma scan_torn {w : Layout} {first blk n off : ℕ} {s s' : Scan}
    (hw : w.Apart (blockSize first)) (hoff : off + n ≤ blockSize first blk)
    (ht : Torn first blk off s) (h : scan w blk n off s = .ok s') :
    Torn first blk (off + n) s' := by
  induction n generalizing off s with
  | zero =>
    cases h
    exact ht
  | succ n ih =>
    rw [scan_succ] at h
    split at h
    · cases h
    · rename_i s₁ h₁
      rw [show off + (n + 1) = off + 1 + n by omega]
      exact ih (by omega) (scanByte_torn hw (by omega) (ht.touch blk off) h₁) h

/-- A parser that has lost a token is not at the end of a request. -/
lemma Torn.not_complete {first blk off : ℕ} {s : Scan} (h : Torn first blk off s)
    (hclean : s.pro.clean = true) : ¬ Complete s.pro.type s.state s.dataLen := by
  unfold Complete
  cases h with
  | unclean hunclean => simp [hclean] at hunclean
  | numeral q hs _ _ _ => rcases hs with hs | hs <;> simp [hs]
  | _ => simp_all

/-- The parser between two calls has lost a token. -/
def TornAt (first : ℕ) (bs : List Buffer) (pro : Protocol) : Prop :=
  Torn first (lastIndex bs) (received bs (lastIndex bs)).length
    ⟨bs, pro, pro.state, pro.tmpDataLen⟩

lemma TornAt.entry {first : ℕ} {bs : List Buffer} {pro : Protocol} (hbs : bs ≠ [])
    (h : TornAt first bs pro) (chunk : List UInt8) :
    Torn first (lastIndex bs) (received bs (lastIndex bs)).length (entry bs pro chunk) := by
  cases h with
  | unclean hclean => exact .unclean hclean
  | type q hs hstart hq hin => exact .type q hs hstart hq hin
  | typeCr q e hs hstart hend hne hq he => exact .typeCr q e hs hstart hend hne hq he
  | numeral q hs hstart hq hdigits =>
    refine .numeral q hs hstart hq ?_
    rwa [Xpipe.entry, inside_extendLast_ne hbs (by omega)]
  | numeralLf hs hfirst => exact .numeralLf hs hfirst

lemma TornAt.chain {first : ℕ} {bs : List Buffer} {pro : Protocol} (hbs : bs ≠ [])
    (h : TornAt first bs pro) (size : ℕ) : TornAt first (bs ++ [⟨size, []⟩]) pro := by
  unfold TornAt
  rw [lastIndex_chain hbs]
  cases h with
  | unclean hclean => exact .unclean hclean
  | type q hs hstart hq hin => exact .type q hs hstart (by omega) hin
  | typeCr q e hs hstart hend hne hq he => exact .typeCr q e hs hstart hend hne hq he
  | numeral q hs hstart hq hdigits =>
    refine .numeral q hs hstart (by omega) ?_
    rwa [inside, received_chain]
  | numeralLf hs hfirst =>
    refine .numeralLf hs ?_
    rw [← lastIndex_chain hbs size, received_chain_last hbs, List.length_nil]

/-- A call after a lost token does not end cleanly with DONE, and after OK the
token is still lost. -/
lemma parseChunk_torn {w : Layout} {first : ℕ} {bs : List Buffer} {pro : Protocol}
    {chunk : List UInt8} (hw : w.Apart (blockSize first)) (hbs : bs ≠ [])
    (hroom : (received bs (lastIndex bs)).length + chunk.length ≤ blockSize first (lastIndex bs))
    (h : TornAt first bs pro) :
    ((parseChunk w bs pro chunk).code = .ok →
      TornAt first (parseChunk w bs pro chunk).buffers (parseChunk w bs pro chunk).pro) ∧
    ¬ ((parseChunk w bs pro chunk).code = .done ∧
      (parseChunk w bs pro chunk).pro.clean = true) := by
  have hshape := parseChunk_shape w bs pro chunk
  rw [parseChunk_eq] at hshape ⊢
  cases hs : scan w (lastIndex bs) chunk.length (received bs (lastIndex bs)).length
      (Xpipe.entry bs pro chunk) with
  | error e =>
    have herr := scan_error hs
    simp only
    exact ⟨fun hok => absurd hok herr.1, fun hdone => herr.2 hdone.1⟩
  | ok s =>
    rw [hs] at hshape
    have htorn := scan_torn hw hroom (h.entry hbs chunk) hs
    simp only at hshape ⊢
    refine ⟨fun hok => ?_, fun ⟨hdone, hclean⟩ => ?_⟩
    · obtain ⟨hlast, hlen⟩ := received_length_of_shape hbs hshape
      unfold TornAt
      rw [hlen, hlast, finishScan_of_not_complete (finishScan_ok hok)]
      cases htorn with
      | unclean hclean => exact .unclean hclean
      | type q hs hstart hq hin => exact .type q hs hstart hq hin
      | typeCr q e hs hstart hend hne hq he => exact .typeCr q e hs hstart hend hne hq he
      | numeral q hs hstart hq hdigits => exact .numeral q hs hstart hq hdigits
      | numeralLf hs hfirst => exact .numeralLf hs hfirst
    · by_cases hc : Complete s.pro.type s.state s.dataLen
      · have hkeep : (finishScan s ⟨lastIndex bs, (received bs (lastIndex bs)).length +
            chunk.length⟩).pro.clean = s.pro.clean := by
          unfold finishScan
          split_ifs <;> rfl
        exact htorn.not_complete (hkeep ▸ hclean) hc
      · rw [finishScan_of_not_complete hc] at hdone
        cases hdone

/-! ## Following the request over the blocks -/

/-- The phases that a border must not cut: inside the type, and inside the
numeral or between its CR and LF. -/
def Phase.held : Phase → Bool
  | .type _ | .dataLen _ | .dataLenCr _ => true
  | _ => false

/-- In every other phase the next block can be begun. -/
lemma Follows.chain {bs : List Buffer} {pro : Protocol} {ph : Phase} (h : Follows bs pro ph)
    (hheld : ph.held = false) (size : ℕ) :
    Follows (bs ++ [⟨size, []⟩]) pro ph := by
  have hst := h.stands
  refine ⟨h.clean, h.dataLen, ?_⟩
  cases ph with
  | type tok => simp [Phase.held] at hheld
  | dataLen tok => simp [Phase.held] at hheld
  | dataLenCr tok => simp [Phase.held] at hheld
  | typeCr tok =>
    obtain ⟨hs, hty, k, o, hstart, hend, rest, hrest⟩ := hst
    exact ⟨hs, hty, k, o, hstart, hend, rest, by rwa [received_chain]⟩
  | _ => exact hst

/-- A border inside a token loses it. -/
lemma Follows.torn {first count : ℕ} {bs : List Buffer} {pro : Protocol} {ph : Phase}
    (hlaid : Laid first bs count) (h : Follows bs pro ph) (hheld : ph.held = true) (size : ℕ) :
    TornAt first (bs ++ [⟨size, []⟩]) pro := by
  have hst := h.stands
  have hbounded := hlaid.bounded
  unfold TornAt
  rw [received_chain_last hlaid.ne_nil, lastIndex_chain hlaid.ne_nil, List.length_nil]
  cases ph with
  | type tok =>
    obtain ⟨hs, hty, o, hstart, hoff, -⟩ := hst
    exact .type ⟨lastIndex bs, o⟩ hs hstart (by simp) (by simp only; omega)
  | dataLen tok =>
    obtain ⟨hs, hty, hdigits, o, hstart, hoff, rest, hrest⟩ := hst
    simp only at hrest
    have hnil : rest = [] := by
      have hlen := congrArg List.length hrest
      rw [List.length_drop, List.length_append] at hlen
      apply List.eq_nil_of_length_eq_zero
      omega
    refine .numeral ⟨lastIndex bs, o⟩ (Or.inl hs) hstart (by simp) ?_
    rw [inside, received_chain]
    rwa [hrest, hnil, List.append_nil]
  | dataLenCr tok => exact .numeralLf hst.1 rfl
  | _ => simp [Phase.held] at hheld

/-- The reads ended with DONE for a request of type `t` with `n` body bytes, none
was left over, and the parser touched received bytes only. -/
def Rounds.Finished (r : Rounds) (t : ReqType) (n : ℕ) : Prop :=
  r.unread = [] ∧ r.parsed.code = .done ∧ r.parsed.pro.type = t ∧ r.parsed.pro.dataLen = n ∧
    r.parsed.pro.clean = true

/-- The room left in the last block. -/
def roomLeft (first : ℕ) (bs : List Buffer) : ℕ :=
  blockSize first (lastIndex bs) - (received bs (lastIndex bs)).length

lemma roomLeft_init (first : ℕ) : roomLeft first [⟨first, []⟩] = first := by
  simp [roomLeft, blockSize, lastIndex, received]

/-- The chain and the room after a call. -/
lemma laid_round (w : Layout) (pro : Protocol) {first count : ℕ} {bs : List Buffer}
    {c : List UInt8} (hlaid : Laid first bs count) (hroom : c.length ≤ roomLeft first bs) :
    Laid first (parseChunk w bs pro c).buffers (count + c.length) ∧
    Laid first (chainBlock (parseChunk w bs pro c).buffers) (count + c.length) ∧
    (lastFull (parseChunk w bs pro c).buffers = true ↔ c.length = roomLeft first bs) ∧
    roomLeft first (chainBlock (parseChunk w bs pro c).buffers) =
      if c.length = roomLeft first bs then bufferMinSize else roomLeft first bs - c.length := by
  have hshape := parseChunk_shape w bs pro c
  have hlaid' := hlaid.extend hshape hroom
  obtain ⟨hlast, hlen⟩ := received_length_of_shape hlaid.ne_nil hshape
  have hbounded := hlaid.bounded
  have hfull : lastFull (parseChunk w bs pro c).buffers = true ↔ c.length = roomLeft first bs := by
    rw [hlaid'.lastFull_iff, hlen, hlast, roomLeft]
    omega
  refine ⟨hlaid', ?_, hfull, ?_⟩
  · unfold chainBlock
    split_ifs with h
    · exact hlaid'.chain h
    · exact hlaid'
  · unfold chainBlock
    by_cases h : c.length = roomLeft first bs
    · rw [if_pos (hfull.mpr h), if_pos h, roomLeft, received_chain_last hlaid'.ne_nil,
        lastIndex_chain hlaid'.ne_nil, blockSize, if_neg (by omega)]
      simp
    · rw [if_neg (fun hf => h (hfull.mp hf)), if_neg h, roomLeft, hlen, hlast, roomLeft]
      omega

/-- A call that goes on follows the request into the next block, unless the border
falls into a token. -/
lemma follows_round (w : Layout) {first count : ℕ} {bs : List Buffer} {pro : Protocol}
    {ph ph' : Phase} {c : List UInt8} (hlaid : Laid first bs count) (hf : Follows bs pro ph)
    (hroom : c.length ≤ roomLeft first bs) (hrun : run advance ph c = .ok ph')
    (hopen : ph'.completeType = none) (hcut : c.length = roomLeft first bs → ph'.held = false) :
    (parseChunk w bs pro c).code = .ok ∧
      Follows (chainBlock (parseChunk w bs pro c).buffers) (parseChunk w bs pro c).pro ph' := by
  have hfollow := parseChunk_follows w hlaid.ne_nil hf c
  rw [hrun] at hfollow
  obtain ⟨hcode, hfollows⟩ := hfollow.1 hopen
  obtain ⟨-, -, hfull, -⟩ := laid_round w pro hlaid hroom
  refine ⟨hcode, ?_⟩
  unfold chainBlock
  split_ifs with hlast
  · exact hfollows.chain (hcut (hfull.mp hlast)) _
  · exact hfollows

/-- After a lost token no reads end cleanly with DONE. -/
lemma recvAll_torn {w : Layout} {first count : ℕ} {bs : List Buffer} {pro : Protocol}
    (hw : w.Apart (blockSize first)) (chunks : List (List UInt8)) (hlaid : Laid first bs count)
    (htorn : TornAt first bs pro) (hfits : Fits (roomLeft first bs) chunks) :
    ¬ ((recvAll w bs pro chunks).parsed.code = .done ∧
      (recvAll w bs pro chunks).parsed.pro.clean = true) := by
  induction chunks generalizing bs pro count with
  | nil =>
    rintro ⟨hdone, -⟩
    cases hdone
  | cons c cs ih =>
    obtain ⟨-, hroom, hrest⟩ := hfits
    have hbounded := hlaid.bounded
    obtain ⟨hok, hdone⟩ := @parseChunk_torn w first bs pro c hw hlaid.ne_nil
      (by unfold roomLeft at hroom; omega) htorn
    unfold recvAll
    by_cases hcode : (parseChunk w bs pro c).code = .ok
    · obtain ⟨hlaid', hchained, hfull, hroom'⟩ := laid_round w pro hlaid hroom
      simp only [hcode, if_true]
      refine ih hchained ?_ (hroom' ▸ hrest)
      unfold chainBlock
      split_ifs
      · exact (hok hcode).chain hlaid'.ne_nil _
      · exact hok hcode
    · simp only [hcode, if_false]
      exact hdone

/-- No border between `count` and the end of `text` falls into a token. -/
def Uncut (first count : ℕ) (ph : Phase) (text : List UInt8) : Prop :=
  ∀ j n, count + n = first + bufferMinSize * j → 0 < n → n ≤ text.length →
    ∀ ph', run advance ph (text.take n) = .ok ph' → ph'.held = false

lemma Uncut.of_append {first count : ℕ} {ph : Phase} {s rest : List UInt8}
    (h : Uncut first count ph (s ++ rest)) : Uncut first count ph s := by
  intro j n hj hn hlen ph' hrun
  refine h j n hj hn (by rw [List.length_append]; omega) ph' ?_
  rwa [List.take_append_of_le_length hlen]

/-- A read has at most one border in it, at its end. -/
lemma Laid.border_iff {first count n : ℕ} {bs : List Buffer} (h : Laid first bs count)
    (hpos : 0 < n) (hle : n ≤ roomLeft first bs) :
    (∃ j, count + n = first + bufferMinSize * j) ↔ n = roomLeft first bs := by
  have hcount := h.count
  have hbounded := h.bounded
  unfold roomLeft at *
  constructor
  · rintro ⟨j, hj⟩
    unfold blockSize at *
    unfold bufferMinSize at *
    by_cases h0 : lastIndex bs = 0
    · rw [if_pos h0] at *
      omega
    · rw [if_neg h0] at *
      omega
  · rintro rfl
    exact ⟨lastIndex bs, by omega⟩

lemma uncut_append {first count : ℕ} {bs : List Buffer} {ph ph' : Phase} {c rest : List UInt8}
    (h : Laid first bs count) (hne : c ≠ []) (hle : c.length ≤ roomLeft first bs)
    (hrun : run advance ph c = .ok ph') :
    Uncut first count ph (c ++ rest) ↔
      (c.length = roomLeft first bs → ph'.held = false) ∧
        Uncut first (count + c.length) ph' rest := by
  have hpos : 0 < c.length := List.length_pos_iff.mpr hne
  have htail (n : ℕ) : run advance ph ((c ++ rest).take (c.length + n)) =
      run advance ph' (rest.take n) := by
    rw [List.take_length_add_append, run_append_of_ok hrun]
  constructor
  · intro hcut
    refine ⟨fun hroom => ?_, fun j n hj hn hlen ph'' hph => ?_⟩
    · obtain ⟨j, hj⟩ := (h.border_iff hpos hle).mpr hroom
      exact hcut j c.length hj hpos (by simp) ph' (by simpa using htail 0)
    · exact hcut j (c.length + n) (by omega) (by omega) (by simpa using hlen) ph''
        (by rw [htail, hph])
  · rintro ⟨hend, hrest⟩ j n hj hn hlen ph'' hph
    rcases Nat.lt_or_ge c.length n with hlt | hge
    · obtain ⟨k, rfl⟩ := Nat.exists_eq_add_of_lt hlt
      rw [Nat.add_assoc, htail] at hph
      rw [List.length_append] at hlen
      exact hrest j (k + 1) (by omega) (by omega) (by omega) ph'' hph
    · -- a border inside the read can only be its end
      have hroom := (h.border_iff hn (by omega)).mp ⟨j, hj⟩
      obtain rfl : n = c.length := by omega
      have hsame : ph'' = ph' := by
        have h0 := htail 0
        rw [Nat.add_zero, hph] at h0
        simpa using h0
      rw [hsame]
      exact hend hroom

lemma held_of_complete {ph : Phase} {t : ReqType} (h : ph.completeType = some t) :
    ph.held = false := by
  cases ph with
  | type _ | dataLen _ | dataLenCr _ => simp [Phase.completeType] at h
  | _ => rfl

/-- What follows a complete request is refused. -/
lemma run_complete {ph : Phase} {t : ReqType} (h : ph.completeType = some t) {s : List UInt8}
    (hs : s ≠ []) : run advance ph s = .error .needlessData := by
  obtain ⟨b, s', rfl⟩ := List.exists_cons_of_ne_nil hs
  exact run_cons_error (advance_complete h b) s'

/-- **Reads that no border disturbs follow the request language**: they stop where it
stops, and end with DONE where a request ends. -/
lemma recvAll_follows {w : Layout} {first count : ℕ} {bs : List Buffer} {pro : Protocol}
    {ph : Phase} (chunks : List (List UInt8)) (hlaid : Laid first bs count)
    (hf : Follows bs pro ph) (hopen : ph.completeType = none)
    (hfits : Fits (roomLeft first bs) chunks) (hcut : Uncut first count ph chunks.flatten) :
    (∀ e, run advance ph chunks.flatten = .error e → e ≠ .needlessData →
      (recvAll w bs pro chunks).parsed.code = e) ∧
    ∀ ph', run advance ph chunks.flatten = .ok ph' →
      (ph'.completeType = none → (recvAll w bs pro chunks).unread = [] ∧
        (recvAll w bs pro chunks).parsed.code = .ok ∧
        (recvAll w bs pro chunks).parsed.pro.dataLen = ph'.length) ∧
      ∀ t, ph'.completeType = some t → (recvAll w bs pro chunks).Finished t ph'.length := by
  induction chunks generalizing bs pro ph count with
  | nil =>
    refine ⟨fun e h => ?_, fun ph' h => ?_⟩
    · cases h
    · cases h
      exact ⟨fun _ => ⟨rfl, rfl, hf.dataLen⟩, fun t ht => by rw [hopen] at ht; cases ht⟩
  | cons c cs ih =>
    obtain ⟨hne, hroom, hrest⟩ := hfits
    have hfollow := parseChunk_follows w hlaid.ne_nil hf c
    unfold recvAll
    rw [List.flatten_cons] at hcut ⊢
    cases hrun : run advance ph c with
    | error e =>
      rw [hrun] at hfollow
      have hbad := advance_run_error hrun
      simp only [hfollow, hbad.1, if_false, run_append, hrun]
      refine ⟨fun e' h _ => ?_, fun ph' h => ?_⟩
      · cases h
        rfl
      · cases h
    | ok ph₁ =>
      rw [hrun] at hfollow
      rw [run_append_of_ok hrun]
      rw [uncut_append hlaid hne hroom hrun] at hcut
      cases hc : ph₁.completeType with
      | some t =>
        obtain ⟨hcode, hty, hlen, hclean⟩ := hfollow.2 t hc
        simp only [hcode, reduceCtorEq, if_false]
        by_cases hcs : cs.flatten = []
        · have hnil : cs = [] := by
            cases cs with
            | nil => rfl
            | cons d ds => exact absurd (List.append_eq_nil_iff.mp hcs).1 hrest.1
          subst hnil
          refine ⟨fun e h => ?_, fun ph' h => ?_⟩
          · cases h
          · cases h
            refine ⟨fun hopen => ?_, fun t' ht' => ?_⟩
            · rw [hc] at hopen
              cases hopen
            · rw [hc] at ht'
              cases ht'
              exact ⟨rfl, hcode, hty, hlen, hclean⟩
        · rw [run_complete hc hcs]
          refine ⟨fun e h hbad => ?_, fun ph' h => ?_⟩
          · cases h
            exact absurd rfl hbad
          · cases h
      | none =>
        obtain ⟨hcode, hnext⟩ := follows_round w hlaid hf hroom hrun hc hcut.1
        obtain ⟨-, hchained, -, hroom'⟩ := laid_round w pro hlaid hroom
        simp only [hcode, if_true]
        exact ih hchained hnext hc (hroom' ▸ hrest) hcut.2

/-- Reads that end cleanly with DONE are those of a request that no border disturbs. -/
lemma Rounds.Finished.uncut {w : Layout} {first count : ℕ} {bs : List Buffer} {pro : Protocol}
    {ph : Phase} {chunks : List (List UInt8)} {t : ReqType} {n : ℕ}
    (hw : w.Apart (blockSize first)) (hlaid : Laid first bs count) (hf : Follows bs pro ph)
    (hopen : ph.completeType = none) (hfits : Fits (roomLeft first bs) chunks)
    (h : (recvAll w bs pro chunks).Finished t n) :
    Uncut first count ph chunks.flatten ∧ ∃ ph', run advance ph chunks.flatten = .ok ph' ∧
      ph'.completeType = some t ∧ ph'.length = n := by
  induction chunks generalizing bs pro ph count with
  | nil => cases h.2.1
  | cons c cs ih =>
    obtain ⟨hne, hroom, hrest⟩ := hfits
    have hfollow := parseChunk_follows w hlaid.ne_nil hf c
    unfold recvAll at h
    rw [List.flatten_cons]
    cases hrun : run advance ph c with
    | error e =>
      rw [hrun] at hfollow
      have hbad := advance_run_error hrun
      simp only [hfollow, hbad.1, if_false] at h
      exact absurd (hfollow.symm.trans h.2.1) hbad.2
    | ok ph₁ =>
      rw [hrun] at hfollow
      obtain ⟨hgo, hstop⟩ := hfollow
      rw [uncut_append hlaid hne hroom hrun, run_append_of_ok hrun]
      cases hc : ph₁.completeType with
      | some t' =>
        obtain ⟨hcode, hty, hlen, -⟩ := hstop t' hc
        simp only [hcode, reduceCtorEq, if_false] at h
        obtain ⟨rfl, -, hty', hlen', -⟩ := h
        refine ⟨⟨fun _ => held_of_complete hc, fun j k _ hk hk0 => ?_⟩, ph₁, rfl, ?_, ?_⟩
        · rw [List.flatten_nil, List.length_nil] at hk0
          omega
        · rw [hc, ← hty', hty]
        · rw [← hlen', hlen]
      | none =>
        obtain ⟨hcode, hfollows⟩ := hgo hc
        obtain ⟨hlaid', hchained, hfull, hroom'⟩ := laid_round w pro hlaid hroom
        simp only [hcode, if_true] at h
        rw [← hroom'] at hrest
        by_cases hcut : c.length = roomLeft first bs → ph₁.held = false
        · obtain ⟨-, hnext⟩ := follows_round w hlaid hf hroom hrun hc hcut
          rw [and_iff_right hcut]
          exact ih hchained hnext hc hrest h
        · obtain ⟨hend, hheld⟩ := Classical.not_imp.mp hcut
          refine absurd ⟨h.2.1, h.2.2.2.2⟩ (recvAll_torn hw cs hchained ?_ hrest)
          rw [chainBlock, if_pos (hfull.mpr hend)]
          exact hfollows.torn hlaid' (by simpa using hheld) _

/-- **The reads of a request over the blocks.** They end cleanly with DONE
exactly when the bytes are a request and no border falls into a token of it. -/
theorem recvAll_finished_iff {w : Layout} {first count : ℕ} {bs : List Buffer} {pro : Protocol}
    {ph : Phase} (hw : w.Apart (blockSize first)) (chunks : List (List UInt8))
    (hlaid : Laid first bs count) (hf : Follows bs pro ph) (hopen : ph.completeType = none)
    (hfits : Fits (roomLeft first bs) chunks) (t : ReqType) (n : ℕ) :
    (recvAll w bs pro chunks).Finished t n ↔
      Uncut first count ph chunks.flatten ∧ ∃ ph', run advance ph chunks.flatten = .ok ph' ∧
        ph'.completeType = some t ∧ ph'.length = n := by
  refine ⟨Rounds.Finished.uncut hw hlaid hf hopen hfits, ?_⟩
  rintro ⟨hcut, ph', hrun, hc, rfl⟩
  exact ((recvAll_follows chunks hlaid hf hopen hfits hcut).2 ph' hrun).2 t hc

/-! ## Where the tokens of a request lie -/

/-- The order in which a request passes through the phases. -/
def Phase.rank : Phase → ℕ
  | .start => 0
  | .type _ => 1
  | .typeCr _ => 2
  | .typeLf _ => 3
  | .headers _ => 4
  | .headersCr _ => 5
  | .headersLf _ => 6
  | .dataLen _ => 7
  | .dataLenCr _ => 8
  | .dataLenLf _ => 9
  | .data _ _ => 10

lemma held_iff_rank (ph : Phase) : ph.held = true ↔ ph.rank = 1 ∨ ph.rank = 7 ∨ ph.rank = 8 := by
  cases ph <;> simp [Phase.held, Phase.rank]

lemma advance_rank {ph ph' : Phase} {c : UInt8} (h : advance ph c = .ok ph') :
    ph.rank ≤ ph'.rank := by
  cases ph with
  | typeCr tok =>
    simp only [advance] at h
    split_ifs at h
    split at h <;> cases h
    simp [Phase.rank]
  | dataLenLf n =>
    cases h
    simp [Phase.rank]
  | _ =>
    simp only [advance] at h
    split_ifs at h <;> cases h <;> simp [Phase.rank]

lemma run_rank {ph ph' : Phase} {s : List UInt8} (h : run advance ph s = .ok ph') :
    ph.rank ≤ ph'.rank := by
  induction s generalizing ph with
  | nil =>
    cases h
    exact le_refl _
  | cons c s ih =>
    cases hc : advance ph c with
    | error e =>
      rw [run_cons_error hc] at h
      cases h
    | ok ph₁ =>
      rw [run_cons_ok hc] at h
      exact (advance_rank hc).trans (ih h)

/-- The rank at a known point of a text bounds the rank before and behind it. -/
lemma rank_take {ph₀ php ph : Phase} {p q : List UInt8} {i : ℕ} (hp : run advance ph₀ p = .ok php)
    (h : run advance ph₀ ((p ++ q).take i) = .ok ph) :
    (i ≤ p.length → ph.rank ≤ php.rank) ∧ (p.length ≤ i → php.rank ≤ ph.rank) := by
  constructor
  · intro hi
    rw [List.take_append_of_le_length hi] at h
    rw [← List.take_append_drop i p, run_append_of_ok h] at hp
    exact run_rank hp
  · intro hi
    obtain ⟨k, rfl⟩ := Nat.exists_eq_add_of_le hi
    rw [List.take_length_add_append, run_append_of_ok hp] at h
    exact run_rank h

namespace WireRequest

/-- The number of bytes in front of the type. -/
def typeStart (m : WireRequest) : ℕ := m.blanks.length

/-- The number of bytes in front of the CR behind the type. -/
def typeEnd (m : WireRequest) : ℕ := m.blanks.length + m.type.name.length

/-- The number of bytes in front of the numeral of a `PUT`. -/
def numeralStart (m : WireRequest) : ℕ := (headLines m.blanks m.type m.headers).length

/-- The number of bytes in front of the LF behind the numeral. -/
def numeralEnd (m : WireRequest) : ℕ := m.numeralStart + m.numeral.length + 1

/-- The rank at a known point of a request bounds the ranks around it. -/
lemma rank_at (m : WireRequest) {i k : ℕ} {ph r : Phase} {p q : List UInt8}
    (h : run advance .start (m.bytes.take i) = .ok ph) (hk : r.rank = k) (hp : Spells r p)
    (hsplit : m.bytes = p ++ q) :
    (i ≤ p.length → ph.rank ≤ k) ∧ (p.length ≤ i → k ≤ ph.rank) :=
  hk ▸ rank_take (spells_run hp) (hsplit ▸ h)

/-- The ranks around the type. -/
lemma rank_type (m : WireRequest) {i : ℕ} {ph : Phase}
    (h : run advance .start (m.bytes.take i) = .ok ph) :
    ph.rank = 1 ↔ m.typeStart < i ∧ i ≤ m.typeEnd := by
  obtain ⟨hne, hup⟩ := name_upper m.type_known
  obtain ⟨c, tok, htok⟩ := List.exists_cons_of_ne_nil hne
  have hc : isUpper c = true := hup c (by simp [htok])
  have hbefore := m.rank_at h (k := 0) (r := .start) rfl m.blanks_ok
    (q := m.type.name ++ crlf ++ m.headers ++ crlf ++
      if m.type = .put then m.numeral ++ crlf ++ m.body else [])
    (by simp [bytes, headLines, typeLine])
  have hfirst := m.rank_at h (k := 1) (r := .type [c]) rfl ⟨_, m.blanks_ok, by simp, All.singleton hc, rfl⟩
    (q := tok ++ crlf ++ m.headers ++ crlf ++
      if m.type = .put then m.numeral ++ crlf ++ m.body else [])
    (by simp [bytes, headLines, typeLine, htok])
  have hlast := m.rank_at h (k := 1) (r := .type m.type.name) rfl ⟨_, m.blanks_ok, hne, hup, rfl⟩
    (q := crlf ++ m.headers ++ crlf ++
      if m.type = .put then m.numeral ++ crlf ++ m.body else [])
    (by simp [bytes, headLines, typeLine])
  have hbehind := m.rank_at h (k := 2) (r := .typeCr m.type.name) rfl ⟨_, m.blanks_ok, hne, hup, rfl⟩
    (q := [LF] ++ m.headers ++ crlf ++
      if m.type = .put then m.numeral ++ crlf ++ m.body else [])
    (by simp [bytes, headLines, typeLine, crlf])
  simp only [List.length_append, List.length_singleton] at hbefore hfirst hlast hbehind
  unfold typeStart typeEnd
  omega

lemma rank_after_numeral {tok s : List UInt8} {c : UInt8} {ph : Phase}
    (h : run advance (.dataLenCr tok) (c :: s) = .ok ph) : 9 ≤ ph.rank := by
  cases hc : advance (.dataLenCr tok) c with
  | error e =>
    rw [run_cons_error hc] at h
    cases h
  | ok ph₁ =>
    rw [run_cons_ok hc] at h
    have hrank := run_rank h
    simp only [advance] at hc
    split_ifs at hc
    cases hc
    exact hrank

/-- The ranks around the numeral. -/
lemma rank_numeral (m : WireRequest) {i : ℕ} {ph : Phase}
    (h : run advance .start (m.bytes.take i) = .ok ph) :
    ph.rank = 7 ∨ ph.rank = 8 ↔ m.type = .put ∧ m.numeralStart < i ∧ i ≤ m.numeralEnd := by
  by_cases hput : m.type = .put
  · have hhead := m.rank_at h (k := 6) (r := .headersLf m.type) rfl
      ⟨_, _, m.blanks_ok, m.type_known, m.headers_ok, rfl⟩ rfl
    obtain ⟨hne, hdigits⟩ := m.numeral_ok hput
    obtain ⟨c, tok, htok⟩ := List.exists_cons_of_ne_nil hne
    have hc : isDigit c = true := hdigits c (by simp [htok])
    have hfirst := m.rank_at h (k := 7) (r := .dataLen [c]) rfl
      ⟨_, _, m.blanks_ok, m.headers_ok, by simp, All.singleton hc, rfl⟩
      (q := tok ++ crlf ++ m.body) (by simp [bytes, htok, hput])
    have hlast := m.rank_at h (k := 8) (r := .dataLenCr m.numeral) rfl
      ⟨_, _, m.blanks_ok, m.headers_ok, hne, hdigits, rfl⟩
      (q := LF :: m.body) (by simp [bytes, hput, crlf])
    have hbehind : m.numeralEnd < i → 9 ≤ ph.rank := by
      intro hi
      obtain ⟨k, hk⟩ := Nat.exists_eq_add_of_lt hi
      have hrun : run advance .start (headLines m.blanks .put m.headers ++ m.numeral ++ [CR]) =
          .ok (.dataLenCr m.numeral) :=
        spells_run ⟨_, _, m.blanks_ok, m.headers_ok, hne, hdigits, rfl⟩
      have hlen : i = (headLines m.blanks .put m.headers ++ m.numeral ++ [CR]).length + (k + 1) := by
        simp only [numeralEnd, numeralStart, hput] at hk
        simp only [List.length_append, List.length_singleton]
        omega
      have hsplit : m.bytes =
          (headLines m.blanks .put m.headers ++ m.numeral ++ [CR]) ++ (LF :: m.body) := by
        simp [bytes, hput, crlf]
      rw [hsplit, hlen, List.take_length_add_append, run_append_of_ok hrun, List.take_succ_cons] at h
      exact rank_after_numeral h
    simp only [List.length_append, List.length_singleton] at hfirst hlast
    simp only [numeralEnd, numeralStart, hput, true_and] at hhead hbehind ⊢
    omega
  · have hend : run advance .start m.bytes = .ok (.headersLf m.type) := by
      have hbytes : m.bytes = headLines m.blanks m.type m.headers := by simp [bytes, hput]
      rw [hbytes]
      exact run_headLines m.blanks_ok m.type_known m.headers_ok
    have hmax : ph.rank ≤ 6 := by
      rw [← List.take_append_drop i m.bytes, run_append_of_ok h] at hend
      exact run_rank hend
    simp only [hput, false_and, iff_false]
    omega

/-- A point of a request is inside a token exactly when it lies behind the first
byte of the type and not behind its CR, or behind the first byte of the numeral
and not behind its LF. -/
lemma held_iff (m : WireRequest) {i : ℕ} {ph : Phase}
    (h : run advance .start (m.bytes.take i) = .ok ph) :
    ph.held = true ↔ (m.typeStart < i ∧ i ≤ m.typeEnd) ∨
      (m.type = .put ∧ m.numeralStart < i ∧ i ≤ m.numeralEnd) := by
  rw [held_iff_rank, m.rank_type h, m.rank_numeral h]

end WireRequest

/-! ## Independence of the block layout -/

/-- A block border lies behind byte `lo` and not behind byte `hi`. -/
def BorderIn (first lo hi : ℕ) : Prop :=
  ∃ j, lo < first + bufferMinSize * j ∧ first + bufferMinSize * j ≤ hi

/-- No block border cuts the type or the numeral of the request, and its length
survives the conversion through `int`. -/
structure WireRequest.Whole (m : WireRequest) (first : ℕ) : Prop where
  type : ¬ BorderIn first m.typeStart m.typeEnd
  numeral : m.type = .put → ¬ BorderIn first m.numeralStart m.numeralEnd
  value : m.type = .put → m.body.length ≤ 2147483647 ∨ m.body.length = 2 ^ 64 - 1

/-- The reads of a request end as parsing it in one buffer does: with DONE, the
same type and the same length, and only received bytes touched. -/
def EndsAsOneBuffer (w : Layout) (first : ℕ) (m : WireRequest) (chunks : List (List UInt8)) :
    Prop :=
  let one := parseChunk w [⟨m.bytes.length, []⟩] protocolInit m.bytes
  (recvAll w [⟨first, []⟩] protocolInit chunks).Finished one.pro.type one.pro.dataLen

/-- A body that completes a request has the announced length. -/
lemma length_of_run_body {n : ℕ} {D : List UInt8} {ph : Phase} {t : ReqType} (hD : 0 < D.length)
    (hrun : run advance (.dataLenLf n) D = .ok ph) (hc : ph.completeType = some t)
    (hn : n ≠ 0) : D.length = n := by
  have hle : D.length ≤ n := by
    by_contra hgt
    have htake : (D.take n).length = n := List.length_take_of_le (by omega)
    have hfull : run advance (.dataLenLf n) (D.take n) = .ok (.data n 0) := by
      rw [run_body (by rw [← List.length_pos_iff]; omega) htake.le, htake, Nat.sub_self]
    have hmore : D.drop n ≠ [] := by
      rw [← List.length_pos_iff, List.length_drop]
      omega
    obtain ⟨c, rest, hrest⟩ := List.exists_cons_of_ne_nil hmore
    rw [← List.take_append_drop n D, run_append_of_ok hfull, hrest,
      run_cons_error (advance_complete rfl c)] at hrun
    cases hrun
  rw [run_body (List.length_pos_iff.mp hD) hle] at hrun
  cases hrun
  cases hk : n - D.length with
  | zero => omega
  | succ k => simp [hk, Phase.completeType] at hc

/-- The bytes of a request are accepted exactly when its length survives. -/
lemma WireRequest.run_complete_iff (m : WireRequest) :
    (∃ ph t, run advance .start m.bytes = .ok ph ∧ ph.completeType = some t) ↔
      (m.type = .put → m.body.length ≤ 2147483647 ∨ m.body.length = 2 ^ 64 - 1) := by
  by_cases hput : m.type = .put
  · obtain ⟨hne, hdigits⟩ := m.numeral_ok hput
    obtain ⟨hpos, hbody⟩ := m.body_ok hput
    simp only [hput, forall_const, hbody, ← lengthOf_eq_iff hdigits]
    constructor
    · rintro ⟨ph, t, hrun, hc⟩
      have hsplit : m.bytes = headLines m.blanks .put m.headers ++ m.numeral ++ crlf ++ m.body := by
        simp [bytes, hput]
      obtain ⟨ph₁, hline, hrest⟩ := (run_append_ok_iff _ _ _ _ _).mp (hsplit ▸ hrun)
      have hzero : lengthOf m.numeral ≠ 0 := by
        intro hzero
        rw [run_append_of_ok (run_numeral m.blanks_ok m.headers_ok hne hdigits), crlf,
          run_cons_ok (t := .dataLenCr m.numeral) (by simp [advance]),
          run_cons_error (e := .dataLenInvalid) (by simp [advance, hzero])] at hline
        cases hline
      rw [run_lengthLine m.blanks_ok m.headers_ok hne hdigits hzero] at hline
      cases hline
      rw [← hbody]
      exact (length_of_run_body (by omega) hrest hc hzero).symm
    · intro hkeep
      refine ⟨m.lastPhase, .put, spells_run (m.spells fun _ => hkeep), ?_⟩
      simp [lastPhase, hput, Phase.completeType]
  · simp only [hput, false_implies, iff_true]
    refine ⟨m.lastPhase, m.type, spells_run (m.spells fun h => absurd h hput), ?_⟩
    simp [lastPhase, hput, Phase.completeType]

lemma WireRequest.length_bytes (m : WireRequest) :
    m.typeEnd ≤ m.bytes.length ∧ (m.type = .put → m.numeralEnd ≤ m.bytes.length) := by
  constructor
  · simp only [bytes, headLines, typeLine, typeEnd, List.length_append]
    omega
  · intro hput
    simp only [bytes, numeralEnd, numeralStart, hput, if_true, List.length_append, crlf,
      List.length_cons]
    omega

/-- No border falls into a token exactly when none cuts the type or the numeral. -/
lemma WireRequest.uncut_iff (m : WireRequest) {first : ℕ} {last : Phase} (hfirst : 0 < first)
    (hrun : run advance .start m.bytes = .ok last) :
    Uncut first 0 .start m.bytes ↔ ¬ BorderIn first m.typeStart m.typeEnd ∧
      (m.type = .put → ¬ BorderIn first m.numeralStart m.numeralEnd) := by
  obtain ⟨htype, hnumeral⟩ := m.length_bytes
  have hpart (i : ℕ) : ∃ ph, run advance .start (m.bytes.take i) = .ok ph := by
    rw [← List.take_append_drop i m.bytes] at hrun
    obtain ⟨ph, hph, -⟩ := (run_append_ok_iff _ _ _ _ _).mp hrun
    exact ⟨ph, hph⟩
  have hclash (j : ℕ) (hcut : Uncut first 0 .start m.bytes)
      (hle : first + bufferMinSize * j ≤ m.bytes.length) {ph : Phase}
      (hph : run advance .start (m.bytes.take (first + bufferMinSize * j)) = .ok ph) :
      ph.held = false :=
    hcut j _ (by omega) (by omega) hle ph hph
  constructor
  · refine fun hcut => ⟨?_, ?_⟩
    · rintro ⟨j, hlo, hhi⟩
      obtain ⟨ph, hph⟩ := hpart (first + bufferMinSize * j)
      have hheld := (m.held_iff hph).mpr (Or.inl ⟨hlo, hhi⟩)
      rw [hclash j hcut (by omega) hph] at hheld
      cases hheld
    · rintro hput ⟨j, hlo, hhi⟩
      have hle := hnumeral hput
      obtain ⟨ph, hph⟩ := hpart (first + bufferMinSize * j)
      have hheld := (m.held_iff hph).mpr (Or.inr ⟨hput, hlo, hhi⟩)
      rw [hclash j hcut (by omega) hph] at hheld
      cases hheld
  · rintro ⟨hty, hnum⟩ j n hj _ _ ph hph
    rw [← Bool.not_eq_true, m.held_iff hph]
    rintro (⟨hlo, hhi⟩ | ⟨hput, hlo, hhi⟩)
    · exact hty ⟨j, by omega, by omega⟩
    · exact hnum hput ⟨j, by omega, by omega⟩

lemma requestBufferSize_ge (configured : ℕ) : bufferMinSize ≤ requestBufferSize configured := by
  unfold requestBufferSize bufferMinSize bufferMaxSize
  split_ifs <;> omega

lemma requestBufferSize_pos (configured : ℕ) : 0 < requestBufferSize configured :=
  lt_of_lt_of_le (by decide) (requestBufferSize_ge configured)

/-- What one buffer gives for a text that completes a request. -/
lemma parseChunk_one {w : Layout} {size : ℕ} {s : List UInt8} {ph : Phase} {t : ReqType}
    (hrun : run advance .start s = .ok ph) (hc : ph.completeType = some t) :
    (parseChunk w [⟨size, []⟩] protocolInit s).pro.type = t ∧
      (parseChunk w [⟨size, []⟩] protocolInit s).pro.dataLen = ph.length := by
  have hfollow := parseChunk_follows w (by simp) (follows_init size) s
  rw [hrun] at hfollow
  obtain ⟨-, hty, hlen, -⟩ := hfollow.2 t hc
  exact ⟨hty, hlen⟩

/-- The reads of a request over the blocks, against one buffer. -/
lemma endsAsOneBuffer_iff (w : Layout) {first : ℕ} (m : WireRequest) (chunks : List (List UInt8))
    (hw : w.Apart (blockSize first)) (hfits : Fits first chunks)
    (hm : chunks.flatten = m.bytes) :
    EndsAsOneBuffer w first m chunks ↔ Uncut first 0 .start m.bytes ∧
      ∃ ph t, run advance .start m.bytes = .ok ph ∧ ph.completeType = some t := by
  have hreads := recvAll_finished_iff hw chunks (laid_init first) (follows_init first) rfl
    (by rwa [roomLeft_init])
  simp only [EndsAsOneBuffer, hreads, hm]
  refine and_congr_right (fun _ => ⟨?_, ?_⟩)
  · rintro ⟨ph, hrun, hc, -⟩
    exact ⟨ph, _, hrun, hc⟩
  · rintro ⟨ph, t, hrun, hc⟩
    obtain ⟨hty, hlen⟩ := @parseChunk_one w m.bytes.length _ _ _ hrun hc
    exact ⟨ph, hrun, by rw [hc, hty], hlen.symm⟩

/-- A request that is parsed over blocks as in one buffer is cut by no border. -/
lemma EndsAsOneBuffer.whole {w : Layout} {first : ℕ} {m : WireRequest}
    {chunks : List (List UInt8)} (hw : w.Apart (blockSize first)) (hfirst : 0 < first)
    (hfits : Fits first chunks) (hm : chunks.flatten = m.bytes)
    (h : EndsAsOneBuffer w first m chunks) : m.Whole first := by
  obtain ⟨hcut, ph, t, hrun, hc⟩ := (endsAsOneBuffer_iff w m chunks hw hfits hm).mp h
  obtain ⟨htype, hnumeral⟩ := (m.uncut_iff hfirst hrun).mp hcut
  exact ⟨htype, hnumeral, m.run_complete_iff.mp ⟨ph, t, hrun, hc⟩⟩

/-- The bytes of a request run to its end. -/
lemma WireRequest.Whole.run {m : WireRequest} {first : ℕ} (h : m.Whole first) :
    Machines.run advance .start m.bytes = .ok m.lastPhase ∧
      m.lastPhase.completeType = some m.type := by
  constructor
  · apply spells_run
    apply m.spells
    intro hput
    rw [lengthOf_eq_iff (m.numeral_ok hput).2, ← (m.body_ok hput).2]
    exact h.value hput
  · unfold WireRequest.lastPhase
    split_ifs with hput
    · simp [Phase.completeType, hput]
    · simp [Phase.completeType, hput]

lemma WireRequest.Whole.uncut {m : WireRequest} {first : ℕ} (h : m.Whole first)
    (hfirst : 0 < first) : Uncut first 0 .start m.bytes :=
  (m.uncut_iff hfirst h.run.1).mpr ⟨h.type, h.numeral⟩

/-- A request that no border cuts is parsed over blocks as in one buffer. -/
lemma WireRequest.Whole.ends {w : Layout} {first : ℕ} {m : WireRequest}
    {chunks : List (List UInt8)} (hw : w.Apart (blockSize first)) (hfirst : 0 < first)
    (hfits : Fits first chunks) (hm : chunks.flatten = m.bytes) (h : m.Whole first) :
    EndsAsOneBuffer w first m chunks :=
  (endsAsOneBuffer_iff w m chunks hw hfits hm).mpr ⟨h.uncut hfirst, m.lastPhase, m.type, h.run⟩

/-- **Exactly the requests that no border cuts are parsed over blocks as in one
buffer**, for every way the reads can fill the blocks. -/
theorem recvAll_layout_iff (w : Layout) (configured : ℕ) (m : WireRequest)
    (chunks : List (List UInt8)) (hw : w.Apart (blockSize (requestBufferSize configured)))
    (hfits : Fits (requestBufferSize configured) chunks) (hm : chunks.flatten = m.bytes) :
    EndsAsOneBuffer w (requestBufferSize configured) m chunks ↔
      m.Whole (requestBufferSize configured) :=
  have hpos := requestBufferSize_pos configured
  ⟨EndsAsOneBuffer.whole hw hpos hfits hm, WireRequest.Whole.ends hw hpos hfits hm⟩

/-- Blocks at the stride of `Layout.spaced` do not overlap. -/
lemma spaced_apart (configured : ℕ) :
    Layout.spaced.Apart (blockSize (requestBufferSize configured)) := by
  have hle (k : ℕ) : blockSize (requestBufferSize configured) k ≤ 12328960 := by
    unfold blockSize requestBufferSize bufferMinSize bufferMaxSize
    split_ifs <;> omega
  intro i j hij
  have hi := hle i
  have hj := hle j
  simp only [Layout.spaced, bufferHeader]
  rcases Nat.lt_or_gt_of_ne hij with h | h
  · left
    have : (i : ℤ) + 1 ≤ j := by exact_mod_cast h
    omega
  · right
    have : (j : ℤ) + 1 ≤ i := by exact_mod_cast h
    omega

/-- `GET` with an empty headers line behind `n` spaces. -/
def getBehind (n : ℕ) : WireRequest where
  type := .get
  blanks := List.replicate n SP
  headers := []
  numeral := []
  body := []
  type_known := by decide
  blanks_ok := by
    intro c hc
    rw [List.eq_of_mem_replicate hc]
    decide
  headers_ok := by simp [All]
  numeral_ok := by simp
  body_ok := by simp

lemma getBehind_length (n : ℕ) : (getBehind n).bytes.length = n + 7 := by
  simp [getBehind, WireRequest.bytes, headLines, typeLine, crlf, ReqType.name]

lemma getBehind_token (n : ℕ) :
    (getBehind n).typeStart = n ∧ (getBehind n).typeEnd = n + 3 := by
  simp [getBehind, WireRequest.typeStart, WireRequest.typeEnd, ReqType.name]

/-- A text in two reads, the first of which fills the first block. -/
def inTwo (text : List UInt8) : List (List UInt8) := [text.take 1024, text.drop 1024]

lemma inTwo_flatten (text : List UInt8) : (inTwo text).flatten = text := by simp [inTwo]

lemma inTwo_fits {text : List UInt8} (hlong : 1024 < text.length) (hshort : text.length ≤ 2048) :
    Fits 1024 (inTwo text) := by
  have htake : (text.take 1024).length = 1024 := by
    rw [List.length_take]
    omega
  have hdrop : (text.drop 1024).length = text.length - 1024 := List.length_drop
  have hplace : bufferMinSize = 1024 := rfl
  refine ⟨?_, htake.le, ?_, ?_, trivial⟩
  · rw [← List.length_pos_iff]
    omega
  · rw [← List.length_pos_iff]
    omega
  · rw [if_pos htake, hdrop, hplace]
    omega

/-- A `PUT` with a body of 1020 bytes, of which 1011 are in the first block. -/
def putLong : WireRequest where
  type := .put
  blanks := []
  headers := []
  numeral := [49, 48, 50, 48]
  body := List.replicate 1020 0
  type_known := by decide
  blanks_ok := by simp [All]
  headers_ok := by simp [All]
  numeral_ok := by decide
  body_ok := fun _ => ⟨by decide, List.length_replicate⟩

lemma putLong_length : putLong.bytes.length = 1033 := by
  simp [putLong, WireRequest.bytes, headLines, typeLine, crlf, ReqType.name,
    -List.reduceReplicate]

lemma putLong_whole : putLong.Whole 1024 where
  type := by
    rintro ⟨j, -, hhi⟩
    have hend : putLong.typeEnd = 3 := rfl
    omega
  numeral := by
    rintro - ⟨j, -, hhi⟩
    have hend : putLong.numeralEnd = 12 := rfl
    omega
  value := fun _ => Or.inl (by simp [putLong, -List.reduceReplicate])

lemma putLong_fits : Fits (requestBufferSize 0) (inTwo putLong.bytes) := by
  apply inTwo_fits
  · rw [putLong_length]
    decide
  · rw [putLong_length]
    decide

/-- A `PUT` whose body goes on in a second block. -/
theorem recvAll_layout_put :
    EndsAsOneBuffer .spaced (requestBufferSize 0) putLong (inTwo putLong.bytes) :=
  (recvAll_layout_iff .spaced 0 putLong (inTwo putLong.bytes) (spaced_apart 0) putLong_fits
    (inTwo_flatten _)).mpr putLong_whole

/-- The border behind byte 1024 cuts a `GET` that stands behind 1022 spaces. -/
theorem recvAll_layout_cut :
    ¬ ∀ (w : Layout) (configured : ℕ) (m : WireRequest) (chunks : List (List UInt8)),
      w.Apart (blockSize (requestBufferSize configured)) →
      Fits (requestBufferSize configured) chunks → chunks.flatten = m.bytes →
      EndsAsOneBuffer w (requestBufferSize configured) m chunks := by
  intro h
  have hlen := getBehind_length 1022
  have hfits : Fits (requestBufferSize 0) (inTwo (getBehind 1022).bytes) := by
    apply inTwo_fits
    · rw [hlen]
      decide
    · rw [hlen]
      decide
  have hflat := inTwo_flatten (getBehind 1022).bytes
  have hends := h .spaced 0 (getBehind 1022) _ (spaced_apart 0) hfits hflat
  have hwhole := hends.whole (spaced_apart 0) (requestBufferSize_pos 0) hfits hflat
  refine hwhole.type ⟨0, ?_, ?_⟩
  · rw [(getBehind_token 1022).1]
    decide
  · rw [(getBehind_token 1022).2]
    decide

end Xpipe
