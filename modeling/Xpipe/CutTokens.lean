import Xpipe.BlockChain

/-!
# What becomes of a token that a border cuts

Behind a border that falls into the type or the numeral the parser still holds a
pointer into the earlier block. A type that has been cut is never found. A numeral
that has been cut is converted from the digits in front of the border and whatever
lies behind its block, and the parser goes on with that value: `recvAll_afterCut`.
-/
namespace Xpipe
open Machines

/-- What the parser goes through behind a border that cuts a token. -/
inductive AfterCut
  | type | typeCr | dataLen | dataLenCr | dataLenLf
  | data (k : ℕ)
  deriving DecidableEq, Repr

namespace AfterCut

/-- One byte behind the border, when the numeral will be converted to `v`. -/
def advance (v : ℕ) : AfterCut → UInt8 → Except Code AfterCut
  | .type, c =>
    if c = CR then .ok .typeCr else if isUpper c then .ok .type else .error .typeInvalid
  | .typeCr, c => if c = LF then .error .typeNotFound else .error .onlyCr
  | .dataLen, c =>
    if c = CR then .ok .dataLenCr else if isDigit c then .ok .dataLen else .error .dataLenInvalid
  | .dataLenCr, c =>
    if c = LF then (if v = 0 then .error .dataLenInvalid else .ok .dataLenLf) else .error .onlyCr
  | .dataLenLf, _ => .ok (.data (v - 1))
  | .data k, _ => if k = 0 then .error .needlessData else .ok (.data (k - 1))

/-- What `pro->data_len` is. -/
def length (v : ℕ) : AfterCut → ℕ
  | .dataLenLf | .data _ => v
  | _ => 0

/-- No step stops with OK or DONE. -/
lemma advance_error {v : ℕ} {l : AfterCut} {c : UInt8} {e : Code} (h : l.advance v c = .error e) :
    e ≠ .ok ∧ e ≠ .done := by
  cases l with
  | dataLenLf => cases h
  | _ =>
    simp only [advance] at h
    split_ifs at h <;> cases h <;> simp

lemma run_error {v : ℕ} {l : AfterCut} {s : List UInt8} {e : Code}
    (h : run (advance v) l s = .error e) : e ≠ .ok ∧ e ≠ .done := by
  obtain ⟨_, _, _, _, _, _, hstep⟩ := (run_error_iff _ _ _ _).mp h
  exact advance_error hstep

/-- Whatever follows a complete request is refused. -/
lemma run_complete {v : ℕ} {s : List UInt8} (hs : s ≠ []) :
    run (advance v) (.data 0) s = .error .needlessData := by
  obtain ⟨c, s', rfl⟩ := List.exists_cons_of_ne_nil hs
  exact run_cons_error rfl s'

/-- The rest of a type and its line end. -/
lemma run_type {v : ℕ} {tok : List UInt8} (htok : All isUpper tok) (s : List UInt8) :
    run (advance v) .type (tok ++ crlf ++ s) = .error .typeNotFound := by
  have hstay : run (advance v) .type tok = .ok .type := by
    apply run_stay
    intro c hc
    simp [advance, htok c hc, ne_CR_of_isUpper (htok c hc)]
  rw [List.append_assoc, run_append_of_ok hstay]
  rfl

/-- The rest of a numeral and its CR. -/
lemma run_numeral {v : ℕ} {tok : List UInt8} (htok : All isDigit tok) :
    run (advance v) .dataLen (tok ++ [CR]) = .ok .dataLenCr := by
  have hstay : run (advance v) .dataLen tok = .ok .dataLen := by
    apply run_stay
    intro c hc
    simp [advance, htok c hc, ne_CR_of_isDigit (htok c hc)]
  rw [run_append_of_ok hstay]
  rfl

lemma run_data {v k : ℕ} (D : List UInt8) (h : D.length ≤ k) :
    run (advance v) (.data k) D = .ok (.data (k - D.length)) := by
  induction D generalizing k with
  | nil => rfl
  | cons c D ih =>
    rw [List.length_cons] at h ⊢
    rw [run_cons_ok (t := .data (k - 1)) (by simp [advance]; omega), ih (by omega)]
    congr 2
    omega

/-- The line end of a numeral and the body behind it. -/
lemma run_line {v : ℕ} (D : List UInt8) (h : D.length ≤ v) (hv : v ≠ 0) :
    run (advance v) .dataLenCr (LF :: D) =
      .ok (if D = [] then .dataLenLf else .data (v - D.length)) := by
  rw [run_cons_ok (t := .dataLenLf) (by simp [advance, hv])]
  cases D with
  | nil => rfl
  | cons c D =>
    rw [List.length_cons] at h
    rw [run_cons_ok (t := .data (v - 1)) rfl, run_data D (by omega), if_neg (by simp),
      List.length_cons]
    congr 2
    omega

end AfterCut

/-- The length that a numeral gives of which `text` stands at the end of block `k`: the
conversion goes on with whatever lies behind that block. -/
def cutValue (w : Layout) (k : ℕ) (text : List UInt8) : ℕ := toSizeT (atoi (text ++ w.beyond k))

/-- The scan stands behind a border that has cut the token at `q`, of which `text` is in
front of the border. -/
def Strays (w : Layout) (first : ℕ) (q : Ptr) (text : List UInt8) (blk : ℕ) (s : Scan) :
    AfterCut → Prop
  | .type => s.state = .type ∧ s.pro.type = .unknow ∧ s.pro.start = some q ∧ q.blk < blk ∧
      q.off ≤ blockSize first q.blk
  | .typeCr => s.state = .typeCr ∧ s.pro.type = .unknow ∧ s.pro.start = some q ∧
      q.off ≤ blockSize first q.blk ∧ ∃ e, s.pro.tokEnd = some e ∧ q.blk ≠ e.blk ∧
        e.off ≤ blockSize first e.blk
  | .dataLen => s.state = .dataLen ∧ s.pro.type = .put ∧ s.pro.start = some q ∧ q.blk < blk ∧
      inside s.buffers (some q) = text
  | .dataLenCr => s.state = .dataLenCr ∧ s.pro.type = .put ∧ s.pro.start = some q ∧ q.blk < blk ∧
      inside s.buffers (some q) = text
  | .dataLenLf => s.state = .dataLenLf ∧ s.pro.type = .put ∧ 1 ≤ cutValue w q.blk text ∧
      s.dataLen = cutValue w q.blk text
  | .data k => s.state = .data ∧ s.pro.type = .put ∧ s.dataLen = k

/-- The scan strays, with the length that the token has given. -/
structure Straying (w : Layout) (first : ℕ) (q : Ptr) (text : List UInt8) (blk : ℕ) (s : Scan)
    (l : AfterCut) : Prop where
  dataLen : s.pro.dataLen = l.length (cutValue w q.blk text)
  stands : Strays w first q text blk s l

section

variable {w : Layout} {first : ℕ} {q : Ptr} {text : List UInt8}

/-- The conversion of a numeral that began in an earlier block. -/
lemma scanDataLen_cut {blk off : ℕ} {s : Scan} (hstart : s.pro.start = some q) (hq : q.blk < blk)
    (htext : inside s.buffers (some q) = text) :
    ∃ s', s'.pro.type = s.pro.type ∧ s'.pro.dataLen = cutValue w q.blk text ∧
      s'.dataLen = cutValue w q.blk text ∧ scanDataLen w blk off s =
        if cutValue w q.blk text = 0 then .error (.dataLenInvalid, s')
        else .ok { s' with state := .dataLenLf } := by
  have hin : inside (terminate s.buffers blk off) s.pro.start = text := by
    rw [hstart, inside, received_terminate, if_neg (by omega), ← htext, inside]
  have hvalue : toSizeT (atoi (memoryAt w (terminate s.buffers blk off) s.pro.start)) =
      cutValue w q.blk text := by
    rw [cutValue, ← hin, hstart]
    rfl
  refine ⟨_, ?_, ?_, ?_, by simp only [scanDataLen, hvalue]; rfl⟩ <;> rfl

/-- **One step behind the border.** -/
lemma scanByte_strays (hw : w.Apart (blockSize first)) {blk off : ℕ} {c : UInt8} {s : Scan}
    {l : AfterCut} (hoff : off ≤ blockSize first blk) (h : Straying w first q text blk s l) :
    match l.advance (cutValue w q.blk text) c with
    | .error e => ∃ s', scanByte w blk off c s = .error (e, s')
    | .ok l' => ∃ s', scanByte w blk off c s = .ok s' ∧ Straying w first q text blk s' l' := by
  obtain ⟨hlen, hst⟩ := h
  cases l with
  | type =>
    obtain ⟨hs, hty, hstart, hq, hin⟩ := hst
    simp only [AfterCut.advance, scanByte, hs, beq_iff_eq]
    by_cases hcr : c = CR
    · simp only [hcr, if_true]
      exact ⟨_, rfl, hlen, rfl, hty, hstart, hin, ⟨blk, off⟩, rfl, by simp only; omega, hoff⟩
    by_cases hup : isUpper c = true
    · simp only [hcr, hup, if_true, if_false, Bool.not_true, Bool.false_eq_true]
      exact ⟨s, rfl, hlen, hs, hty, hstart, hq, hin⟩
    · simp [hcr, hup]
  | typeCr =>
    obtain ⟨hs, hty, hstart, hin, e, hend, hne, hein⟩ := hst
    simp only [AfterCut.advance, scanByte, hs, bne_iff_ne, ne_eq]
    by_cases hlf : c = LF
    · simp [hlf, scanType, hstart, hend, lookupType_apart hw hne hin hein]
    · simp [hlf]
  | dataLen =>
    obtain ⟨hs, hty, hstart, hq, htext⟩ := hst
    simp only [AfterCut.advance, scanByte, hs, beq_iff_eq]
    by_cases hcr : c = CR
    · simp only [hcr, if_true]
      exact ⟨_, rfl, hlen, rfl, hty, hstart, hq, htext⟩
    by_cases hd : isDigit c = true
    · simp only [hcr, hd, if_true, if_false, Bool.not_true, Bool.false_eq_true]
      exact ⟨s, rfl, hlen, hs, hty, hstart, hq, htext⟩
    · simp [hcr, hd]
  | dataLenCr =>
    obtain ⟨hs, hty, hstart, hq, htext⟩ := hst
    obtain ⟨s', hty', hlen', hn', hscan⟩ := @scanDataLen_cut w q text blk off s hstart hq htext
    simp only [AfterCut.advance, scanByte, hs, bne_iff_ne, ne_eq]
    by_cases hlf : c = LF
    · by_cases hz : cutValue w q.blk text = 0
      · simp only [hlf, not_true, if_true, if_false, hscan, hz]
        exact ⟨_, rfl⟩
      · simp only [hlf, not_true, if_true, if_false, hscan, hz]
        exact ⟨_, rfl, hlen', rfl, hty'.trans hty, Nat.one_le_iff_ne_zero.mpr hz, hn'⟩
    · simp [hlf]
  | dataLenLf =>
    obtain ⟨hs, hty, hpos, hn⟩ := hst
    simp only [AfterCut.advance, scanByte, hs]
    refine ⟨_, rfl, hlen, rfl, hty, ?_⟩
    have hbound : cutValue w q.blk text < 2 ^ 64 := by
      unfold cutValue toSizeT
      omega
    simp only [hn, toSizeT]
    omega
  | data k =>
    obtain ⟨hs, hty, hk⟩ := hst
    simp only [AfterCut.advance, scanByte, hs, hk]
    by_cases h0 : k = 0
    · simp [h0]
    · simp only [h0, if_false]
      exact ⟨_, rfl, hlen, rfl, hty, rfl⟩

/-- The tests after the loop recognise the end of a request. -/
lemma Straying.complete_iff {blk : ℕ} {s : Scan} {l : AfterCut}
    (h : Straying w first q text blk s l) :
    Complete s.pro.type s.state s.dataLen ↔ l = .data 0 := by
  have hst := h.stands
  unfold Complete
  cases l with
  | data k =>
    obtain ⟨hs, hty, rfl⟩ := hst
    simp [hs, hty]
  | _ => simp [hst.1]

/-- The parser between two calls strays. -/
def StraysAt (w : Layout) (first : ℕ) (q : Ptr) (text : List UInt8) (bs : List Buffer)
    (pro : Protocol) (l : AfterCut) : Prop :=
  Straying w first q text (lastIndex bs) ⟨bs, pro, pro.state, pro.tmpDataLen⟩ l

/-- Bytes that come, and a block that is chained, leave the earlier block as it is. -/
lemma Straying.moves {blk blk' : ℕ} {s : Scan} {bs : List Buffer} {l : AfterCut}
    (h : Straying w first q text blk s l) (hle : blk ≤ blk')
    (hkeep : ∀ k < blk, received bs k = received s.buffers k) :
    Straying w first q text blk' { s with buffers := bs } l := by
  refine ⟨h.dataLen, ?_⟩
  have hst := h.stands
  cases l with
  | type =>
    obtain ⟨hs, hty, hstart, hq, hin⟩ := hst
    exact ⟨hs, hty, hstart, by omega, hin⟩
  | dataLen =>
    obtain ⟨hs, hty, hstart, hq, htext⟩ := hst
    exact ⟨hs, hty, hstart, by omega, by rw [← htext, inside, inside, hkeep _ hq]⟩
  | dataLenCr =>
    obtain ⟨hs, hty, hstart, hq, htext⟩ := hst
    exact ⟨hs, hty, hstart, by omega, by rw [← htext, inside, inside, hkeep _ hq]⟩
  | _ => exact hst

/-- A scan behind the border. -/
lemma scan_strays (hw : w.Apart (blockSize first)) {blk : ℕ} {s : Scan} {l : AfterCut}
    (cs : List UInt8) (off : ℕ) (h : Straying w first q text blk s l)
    (hle : (received s.buffers blk).length ≤ blockSize first blk)
    (hcs : (received s.buffers blk).drop off = cs) :
    (∀ e, run (AfterCut.advance (cutValue w q.blk text)) l cs = .error e →
      ∃ s', scan w blk cs.length off s = .error (e, s')) ∧
    ∀ l', run (AfterCut.advance (cutValue w q.blk text)) l cs = .ok l' →
      ∃ s', scan w blk cs.length off s = .ok s' ∧ Straying w first q text blk s' l' ∧
        (received s'.buffers blk).length ≤ blockSize first blk := by
  refine scan_simulates (R := fun _ s l => Straying w first q text blk s l ∧
    (received s.buffers blk).length ≤ blockSize first blk) w ?_ cs [] ⟨h, hle⟩ (by simpa using hcs)
  rintro off c s l ⟨hst, hle⟩ hc
  have hoff : off < (received s.buffers blk).length := (List.getElem?_eq_some_iff.mp hc).1
  have hstep := @scanByte_strays w first q text hw blk off c s l (by omega) hst
  constructor
  · intro e he
    rwa [he] at hstep
  · intro l' hl'
    rw [hl'] at hstep
    obtain ⟨s', hs', hst'⟩ := hstep
    exact ⟨s', hs', hst', by rwa [(scanByte_shape hs').2]⟩

/-- A call behind the border. -/
lemma parseChunk_strays (hw : w.Apart (blockSize first)) {bs : List Buffer} {pro : Protocol}
    {l : AfterCut} {c : List UInt8} (hbs : bs ≠ [])
    (hroom : (received bs (lastIndex bs)).length + c.length ≤ blockSize first (lastIndex bs))
    (h : StraysAt w first q text bs pro l) :
    (∀ e, run (AfterCut.advance (cutValue w q.blk text)) l c = .error e →
      (parseChunk w bs pro c).code = e) ∧
    ∀ l', run (AfterCut.advance (cutValue w q.blk text)) l c = .ok l' →
      (l' ≠ .data 0 → (parseChunk w bs pro c).code = .ok ∧
        StraysAt w first q text (parseChunk w bs pro c).buffers (parseChunk w bs pro c).pro l') ∧
      (l' = .data 0 → (parseChunk w bs pro c).code = .done ∧
        (parseChunk w bs pro c).pro.dataLen = cutValue w q.blk text) := by
  have hrec := received_last_extend hbs c
  have hentry : Straying w first q text (lastIndex bs) (entry bs pro c) l := by
    refine Straying.moves h (le_refl _) (fun k hk => ?_)
    rw [received_extendLast bs c k hbs, if_neg (by omega)]
  obtain ⟨hbad, hgo⟩ := scan_strays hw c (received bs (lastIndex bs)).length hentry
    (by simp only [entry, hrec, List.length_append]; exact hroom) (by simp [entry, hrec])
  rw [parseChunk_eq]
  refine ⟨fun e he => ?_, fun l' hl' => ?_⟩
  · obtain ⟨s', hs'⟩ := hbad e he
    simp only [hs']
  · obtain ⟨s', hs', hst', -⟩ := hgo l' hl'
    have hcomplete := hst'.complete_iff
    simp only [hs']
    refine ⟨fun hopen => ?_, fun hend => ?_⟩
    · have hshape : SameShape (extendLast bs c) s'.buffers := scan_shape hs'
      obtain ⟨hlast, -⟩ := received_length_of_shape hbs hshape
      rw [finishScan_of_not_complete (by rwa [hcomplete])]
      refine ⟨rfl, ?_⟩
      unfold StraysAt
      rw [hlast]
      obtain ⟨hlen, hst⟩ := hst'
      refine ⟨hlen, ?_⟩
      cases l' <;> exact hst
    · refine ⟨finishScan_of_complete (hcomplete.mpr hend) _, ?_⟩
      have hlen := hst'.dataLen
      rw [hend] at hlen
      unfold finishScan
      split_ifs <;> exact hlen

/-- **The reads behind a border that has cut a token.** -/
theorem recvAll_afterCut (hw : w.Apart (blockSize first)) {count : ℕ} {bs : List Buffer}
    {pro : Protocol} {l : AfterCut} (chunks : List (List UInt8)) (hlaid : Laid first bs count)
    (h : StraysAt w first q text bs pro l) (hopen : l ≠ .data 0)
    (hfits : Fits (roomLeft first bs) chunks) :
    (∀ e, run (AfterCut.advance (cutValue w q.blk text)) l chunks.flatten = .error e →
      e ≠ .needlessData → (recvAll w bs pro chunks).parsed.code = e) ∧
    ∀ l', run (AfterCut.advance (cutValue w q.blk text)) l chunks.flatten = .ok l' →
      (recvAll w bs pro chunks).unread = [] ∧
      (recvAll w bs pro chunks).parsed.pro.dataLen = l'.length (cutValue w q.blk text) ∧
      (recvAll w bs pro chunks).parsed.code = if l' = .data 0 then .done else .ok := by
  induction chunks generalizing bs pro l count with
  | nil =>
    refine ⟨fun e he => ?_, fun l' hl' => ?_⟩
    · cases he
    · cases hl'
      exact ⟨rfl, h.dataLen, by rw [if_neg hopen]; rfl⟩
  | cons c cs ih =>
    obtain ⟨hne, hroom, hrest⟩ := hfits
    have hbounded := hlaid.bounded
    obtain ⟨hbad, hgo⟩ := @parseChunk_strays w first q text hw bs pro l c hlaid.ne_nil
      (by unfold roomLeft at hroom; omega) h
    unfold recvAll
    rw [List.flatten_cons]
    cases hrun : run (AfterCut.advance (cutValue w q.blk text)) l c with
    | error e =>
      have hcode := hbad e hrun
      rw [run_append, hrun]
      simp only [hcode, (AfterCut.run_error hrun).1, if_false]
      refine ⟨fun e' he' _ => ?_, fun l' hl' => ?_⟩
      · cases he'
        rfl
      · cases hl'
    | ok l₁ =>
      obtain ⟨hnext, hstop⟩ := hgo l₁ hrun
      rw [run_append_of_ok hrun]
      by_cases hend : l₁ = .data 0
      · obtain ⟨hcode, hlen⟩ := hstop hend
        simp only [hcode, reduceCtorEq, if_false, hend]
        by_cases hcs : cs.flatten = []
        · have hnil : cs = [] := by
            cases cs with
            | nil => rfl
            | cons d ds => exact absurd (List.append_eq_nil_iff.mp hcs).1 hrest.1
          subst hnil
          refine ⟨fun e he => ?_, fun l' hl' => ?_⟩
          · cases he
          · cases hl'
            exact ⟨rfl, hlen, (if_pos rfl).symm⟩
        · rw [AfterCut.run_complete hcs]
          refine ⟨fun e he hbad => ?_, fun l' hl' => ?_⟩
          · cases he
            exact absurd rfl hbad
          · cases hl'
      · obtain ⟨hcode, hstrays⟩ := hnext hend
        obtain ⟨hlaid', hchained, -, hroom'⟩ := laid_round w pro hlaid hroom
        simp only [hcode, if_true]
        refine ih hchained ?_ hend (hroom' ▸ hrest)
        unfold chainBlock
        split_ifs
        · unfold StraysAt
          rw [lastIndex_chain hlaid'.ne_nil]
          exact Straying.moves hstrays (by omega) (fun k _ => received_chain _ _ k)
        · exact hstrays

end

/-! ## From the border on -/

/-- The part of a cut numeral in front of the border. -/
def Phase.inFront : Phase → List UInt8
  | .dataLen tok => tok
  | .dataLenCr tok => tok ++ [CR]
  | _ => []

/-- Where a phase that a border cuts goes on. -/
def Phase.afterCut : Phase → AfterCut
  | .dataLen _ => .dataLen
  | .dataLenCr _ => .dataLenCr
  | _ => .type

/-- A border inside a token makes the parser stray. -/
lemma Follows.strays (w : Layout) {first count : ℕ} {bs : List Buffer} {pro : Protocol} {ph : Phase}
    (hlaid : Laid first bs count) (h : Follows bs pro ph) (hheld : ph.held = true) (size : ℕ) :
    ∃ q : Ptr, q.blk = lastIndex bs ∧
      StraysAt w first q ph.inFront (bs ++ [⟨size, []⟩]) pro ph.afterCut := by
  obtain ⟨-, hlen, hst⟩ := h
  have hbounded := hlaid.bounded
  -- a token that ends with the received bytes is all that stands from its first byte on
  have hwhole {o : ℕ} {tok : List UInt8} (htext : TextAt bs (lastIndex bs) o tok)
      (hoff : (received bs (lastIndex bs)).length = o + tok.length) :
      inside (bs ++ [⟨size, []⟩]) (some ⟨lastIndex bs, o⟩) = tok := by
    obtain ⟨rest, hrest⟩ := htext
    have hnil : rest = [] := by
      have hlen := congrArg List.length hrest
      rw [List.length_drop, List.length_append] at hlen
      apply List.eq_nil_of_length_eq_zero
      omega
    rw [inside, received_chain]
    simp only [hrest, hnil, List.append_nil]
  unfold StraysAt
  rw [lastIndex_chain hlaid.ne_nil]
  cases ph with
  | type tok =>
    obtain ⟨hs, hty, o, hstart, hoff, -⟩ := hst
    exact ⟨⟨lastIndex bs, o⟩, rfl, hlen, hs, hty, hstart, by simp, by simp only; omega⟩
  | dataLen tok =>
    obtain ⟨hs, hty, -, o, hstart, hoff, htext⟩ := hst
    exact ⟨⟨lastIndex bs, o⟩, rfl, hlen, hs, hty, hstart, by simp, hwhole htext hoff⟩
  | dataLenCr tok =>
    obtain ⟨hs, hty, -, o, hstart, hoff, htext⟩ := hst
    refine ⟨⟨lastIndex bs, o⟩, rfl, hlen, hs, hty, hstart, by simp, hwhole htext ?_⟩
    rw [Phase.inFront, List.length_append, List.length_singleton, ← Nat.add_assoc]
    exact hoff
  | _ => simp [Phase.held] at hheld

/-- A read that ends at a border inside a token. -/
lemma cut_round (w : Layout) {first count j : ℕ} {bs : List Buffer} {pro : Protocol}
    {ph ph' : Phase} {c : List UInt8} (hlaid : Laid first bs count) (hf : Follows bs pro ph)
    (hroom : c.length ≤ roomLeft first bs) (hborder : count + c.length = first + bufferMinSize * j)
    (hfull : lastFull (parseChunk w bs pro c).buffers = true)
    (hrun : run advance ph c = .ok ph') (hheld : ph'.held = true) :
    (parseChunk w bs pro c).code = .ok ∧
      ∃ q : Ptr, q.blk = j ∧ StraysAt w first q ph'.inFront
        (chainBlock (parseChunk w bs pro c).buffers) (parseChunk w bs pro c).pro ph'.afterCut := by
  have hincomplete : ph'.completeType = none := by
    cases ph' with
    | type _ | dataLen _ | dataLenCr _ => rfl
    | _ => simp [Phase.held] at hheld
  have hfollow := parseChunk_follows w hlaid.ne_nil hf c
  rw [hrun] at hfollow
  obtain ⟨hcode, hfollows⟩ := hfollow.1 hincomplete
  obtain ⟨hlaid', -⟩ := laid_round w pro hlaid hroom
  obtain ⟨q, hq, hstrays⟩ := hfollows.strays w hlaid' hheld bufferMinSize
  refine ⟨hcode, q, ?_, by rwa [chainBlock, if_pos hfull]⟩
  have hcount := hlaid'.count
  have hlast := hlaid'.lastFull_iff.mp hfull
  unfold bufferMinSize at *
  omega

/-- Reads up to a border that cuts a token go on with the parser astray. -/
lemma recvAll_reaches (w : Layout) {first count n j : ℕ} {bs : List Buffer} {pro : Protocol}
    {ph ph' : Phase} (chunks : List (List UInt8)) (hlaid : Laid first bs count)
    (hf : Follows bs pro ph) (hopen : ph.completeType = none)
    (hfits : Fits (roomLeft first bs) chunks) (hborder : count + n = first + bufferMinSize * j)
    (hn : 0 < n) (hle : n ≤ chunks.flatten.length)
    (hrun : run advance ph (chunks.flatten.take n) = .ok ph') (hheld : ph'.held = true)
    (hfree : Uncut first count ph (chunks.flatten.take (n - 1))) :
    ∃ (q : Ptr) (bs' : List Buffer) (pro' : Protocol) (rest : List (List UInt8)), q.blk = j ∧
      Laid first bs' (count + n) ∧ Fits (roomLeft first bs') rest ∧
      rest.flatten = chunks.flatten.drop n ∧
      StraysAt w first q ph'.inFront bs' pro' ph'.afterCut ∧
      recvAll w bs pro chunks = recvAll w bs' pro' rest := by
  induction chunks generalizing bs pro ph count n with
  | nil =>
    rw [List.flatten_nil, List.length_nil] at hle
    omega
  | cons c cs ih =>
    obtain ⟨hne, hroom, hrest⟩ := hfits
    rw [List.flatten_cons] at hrun hle hfree ⊢
    have hpos : 0 < c.length := List.length_pos_iff.mpr hne
    obtain ⟨-, hchained, hfull, hroom'⟩ := laid_round w pro hlaid hroom
    rcases Nat.lt_or_ge c.length n with hlt | hge
    · -- the border lies behind this read
      have hsplit : (c ++ cs.flatten).take n = c ++ cs.flatten.take (n - c.length) := by
        rw [List.take_append, List.take_of_length_le hlt.le]
      obtain ⟨ph₁, hc, hrun'⟩ := (run_append_ok_iff _ _ _ _ _).mp (hsplit ▸ hrun)
      have hrest' : cs.flatten.take (n - c.length) ≠ [] := by
        rw [← List.length_pos_iff, List.length_take]
        rw [List.length_append] at hle
        omega
      have hopen₁ : ph₁.completeType = none := by
        cases hc₁ : ph₁.completeType with
        | none => rfl
        | some t =>
          rw [run_complete hc₁ hrest'] at hrun'
          cases hrun'
      have hsplit' : (c ++ cs.flatten).take (n - 1) = c ++ cs.flatten.take (n - c.length - 1) := by
        rw [List.take_append, List.take_of_length_le (by omega)]
        congr 2
        omega
      rw [hsplit', uncut_append hlaid hne hroom hc] at hfree
      obtain ⟨hcode, hnext⟩ := follows_round w hlaid hf hroom hc hopen₁ hfree.1
      have hdrop : (c ++ cs.flatten).drop n = cs.flatten.drop (n - c.length) := by
        rw [List.drop_append, List.drop_of_length_le hlt.le, List.nil_append]
      rw [List.length_append] at hle
      obtain ⟨q, bs', pro', rest, hq, hlaid', hfits', hflat, hstrays, heq⟩ :=
        ih hchained hnext hopen₁ (hroom' ▸ hrest) (n := n - c.length) (by omega) (by omega)
          (by omega) hrun' hfree.2
      refine ⟨q, bs', pro', rest, hq, ?_, hfits', hdrop ▸ hflat, hstrays, ?_⟩
      · rwa [show count + n = count + c.length + (n - c.length) by omega]
      · rw [← heq]
        conv_lhs => unfold recvAll
        simp only [hcode, if_true]
    · -- a border inside a read is its end
      have hend := (hlaid.border_iff hn (by omega)).mp ⟨j, hborder⟩
      obtain rfl : n = c.length := by omega
      rw [List.take_left] at hrun
      obtain ⟨hcode, q, hq, hstrays⟩ :=
        cut_round w hlaid hf hroom hborder (hfull.mpr hend) hrun hheld
      refine ⟨q, _, _, cs, hq, hchained, hroom' ▸ hrest, by rw [List.drop_left], hstrays, ?_⟩
      conv_lhs => unfold recvAll
      simp only [hcode, if_true]

/-- **Reads of a text that a border cuts in a token**: from the border on they go as the
value of the token says. -/
theorem recvAll_cut {w : Layout} {first j n : ℕ} (hw : w.Apart (blockSize first)) {ph : Phase}
    {chunks : List (List UInt8)} (hfits : Fits first chunks) (hn : n = first + bufferMinSize * j)
    (hpos : 0 < n) (hle : n ≤ chunks.flatten.length)
    (hrun : run advance .start (chunks.flatten.take n) = .ok ph) (hheld : ph.held = true)
    (hfree : Uncut first 0 .start (chunks.flatten.take (n - 1))) :
    (∀ e, run (AfterCut.advance (cutValue w j ph.inFront)) ph.afterCut (chunks.flatten.drop n) =
        .error e → e ≠ .needlessData →
      (recvAll w [⟨first, []⟩] protocolInit chunks).parsed.code = e) ∧
    ∀ l, run (AfterCut.advance (cutValue w j ph.inFront)) ph.afterCut (chunks.flatten.drop n) =
        .ok l →
      (recvAll w [⟨first, []⟩] protocolInit chunks).unread = [] ∧
      (recvAll w [⟨first, []⟩] protocolInit chunks).parsed.pro.dataLen =
        l.length (cutValue w j ph.inFront) ∧
      (recvAll w [⟨first, []⟩] protocolInit chunks).parsed.code =
        if l = .data 0 then .done else .ok := by
  obtain ⟨q, bs, pro, rest, rfl, hlaid, hrest, hflat, hstrays, heq⟩ := recvAll_reaches w chunks
    (laid_init first) (follows_init first) rfl (by rwa [roomLeft_init]) (j := j) (by omega) hpos hle
    hrun hheld hfree
  have hopen : ph.afterCut ≠ .data 0 := by
    cases ph <;> simp [Phase.afterCut]
  rw [heq, ← hflat]
  exact recvAll_afterCut hw rest hlaid hstrays hopen hrest

end Xpipe
