import Xpipe.RequestLanguage
import Xpipe.Segmentation

/-!
# The parser follows the request language

As long as every token lies in one block, the scan over the buffer chain makes
the steps of the machine of `RequestLanguage`: the pointers it has saved point
at the text the machine carries. From this the language the parser accepts in
one buffer is read off (`protocolParse_done_iff`).
-/
namespace Xpipe
open Machines

/-- The text `tok` stands at offset `o` of block `k`. -/
def TextAt (bs : List Buffer) (k o : ℕ) (tok : List UInt8) : Prop :=
  ∃ rest, (received bs k).drop o = tok ++ rest

/-- What `pro->data_len` is in a phase. -/
def Phase.length : Phase → ℕ
  | .dataLenLf n => n
  | .data n _ => n
  | _ => 0

/-- The scan state that stands for a phase, with the next byte at `⟨blk, off⟩`. -/
def Stands (blk off : ℕ) (s : Scan) : Phase → Prop
  | .start => s.state = .start ∧ s.pro.type = .unknow
  | .type tok => s.state = .type ∧ s.pro.type = .unknow ∧
      ∃ o, s.pro.start = some ⟨blk, o⟩ ∧ off = o + tok.length ∧ TextAt s.buffers blk o tok
  | .typeCr tok => s.state = .typeCr ∧ s.pro.type = .unknow ∧
      ∃ k o, s.pro.start = some ⟨k, o⟩ ∧ s.pro.tokEnd = some ⟨k, o + tok.length⟩ ∧
        TextAt s.buffers k o tok
  | .typeLf t => s.state = .typeLf ∧ s.pro.type = t ∧ t ≠ .unknow
  | .headers t => s.state = .headers ∧ s.pro.type = t ∧ t ≠ .unknow
  | .headersCr t => s.state = .headersCr ∧ s.pro.type = t ∧ t ≠ .unknow
  | .headersLf t => s.state = .headersLf ∧ s.pro.type = t ∧ t ≠ .unknow
  | .dataLen tok => s.state = .dataLen ∧ s.pro.type = .put ∧ All isDigit tok ∧
      ∃ o, s.pro.start = some ⟨blk, o⟩ ∧ off = o + tok.length ∧ TextAt s.buffers blk o tok
  | .dataLenCr tok => s.state = .dataLenCr ∧ s.pro.type = .put ∧ All isDigit tok ∧
      ∃ o, s.pro.start = some ⟨blk, o⟩ ∧ off = o + tok.length + 1 ∧
        TextAt s.buffers blk o (tok ++ [CR])
  | .dataLenLf n => s.state = .dataLenLf ∧ s.pro.type = .put ∧ s.dataLen = n ∧ 1 ≤ n ∧ n < 2 ^ 64
  | .data _ k => s.state = .data ∧ s.pro.type = .put ∧ s.dataLen = k

/-- The scan state stands for the phase, has the length the phase has, and has
touched received bytes only. -/
structure Tracks (blk off : ℕ) (s : Scan) (ph : Phase) : Prop where
  clean : s.pro.clean = true
  dataLen : s.pro.dataLen = ph.length
  stands : Stands blk off s ph

lemma TextAt.snoc {bs : List Buffer} {k o : ℕ} {tok : List UInt8} {c : UInt8}
    (h : TextAt bs k o tok) (hc : (received bs k)[o + tok.length]? = some c) :
    TextAt bs k o (tok ++ [c]) := by
  obtain ⟨rest, hrest⟩ := h
  have hhead : rest[0]? = some c := by
    rw [← hc, ← List.getElem?_drop, hrest, List.getElem?_append_right (le_refl _)]
    simp
  cases rest with
  | nil => simp at hhead
  | cons d rest =>
    obtain rfl : d = c := by simpa using hhead
    exact ⟨rest, by simp [hrest]⟩

lemma TextAt.nil (bs : List Buffer) (k o : ℕ) : TextAt bs k o [] := ⟨_, rfl⟩

lemma textAt_singleton {bs : List Buffer} {k o : ℕ} {c : UInt8}
    (hc : (received bs k)[o]? = some c) : TextAt bs k o [c] :=
  TextAt.snoc (TextAt.nil bs k o) (by simpa using hc)

lemma strncmpEq_iff {tok lit : List UInt8} (h : tok.length = lit.length) :
    strncmpEq tok lit = true ↔ tok = lit := by
  induction lit generalizing tok with
  | nil => simp_all [strncmpEq]
  | cons b lit ih =>
    cases tok with
    | nil => simp at h
    | cons a tok => simp [strncmpEq, ih (by simpa using h)]

/-- The comparisons by length find the type by its name. -/
lemma lookupType_self (tok : List UInt8) :
    (lookupType tok tok.length).1 = ReqType.ofName tok := by
  have hcases (t : ReqType) (h : tok.length ≠ t.name.length) : tok ≠ t.name := by
    rintro rfl
    exact h rfl
  unfold lookupType ReqType.ofName
  by_cases h3 : tok.length = 3
  · have hl := hcases .list (by simp [h3, ReqType.name])
    have hq := hcases .queue (by simp [h3, ReqType.name])
    simp only [h3, Nat.cast_ofNat, if_true, strncmpEq_iff (show tok.length = ReqType.put.name.length by simp [h3, ReqType.name]),
      strncmpEq_iff (show tok.length = ReqType.get.name.length by simp [h3, ReqType.name]), hl, hq, if_false]
    split_ifs <;> rfl
  have hp := hcases .put (by simpa [ReqType.name] using h3)
  have hg := hcases .get (by simpa [ReqType.name] using h3)
  by_cases h4 : tok.length = 4
  · have hq := hcases .queue (by simp [h4, ReqType.name])
    simp [h4, hp, hg, hq, strncmpEq_iff (show tok.length = ReqType.list.name.length by simp [h4, ReqType.name])]
  have hl := hcases .list (by simpa [ReqType.name] using h4)
  by_cases h5 : tok.length = 5
  · simp [h5, hp, hg, hl, strncmpEq_iff (show tok.length = ReqType.queue.name.length by simp [h5, ReqType.name])]
  · have hq := hcases .queue (by simpa [ReqType.name] using h5)
    simp only [hp, hg, hl, hq, if_false, if_neg (show ¬ (tok.length : ℤ) = 3 by omega),
      if_neg (show ¬ (tok.length : ℤ) = 4 by omega), if_neg (show ¬ (tok.length : ℤ) = 5 by omega)]

lemma scanType_tracks (w : Layout) {s : Scan} {k o : ℕ} {tok : List UInt8}
    (hclean : s.pro.clean = true) (hstart : s.pro.start = some ⟨k, o⟩)
    (hend : s.pro.tokEnd = some ⟨k, o + tok.length⟩) (htext : TextAt s.buffers k o tok) :
    scanType w s =
      match ReqType.ofName tok with
      | none => .error (.typeNotFound, s)
      | some t => .ok { s with pro := { s.pro with type := t }, state := .typeLf } := by
  obtain ⟨rest, hrest⟩ := htext
  have hn : w.addr s.pro.tokEnd - w.addr s.pro.start = tok.length := by
    rw [hstart, hend, w.addr_sub_same ⟨k, o + tok.length⟩ ⟨k, o⟩ rfl]
    push_cast
    omega
  have hin : inside s.buffers s.pro.start = tok ++ rest := by rw [hstart, inside, hrest]
  have hmem : memoryAt w s.buffers s.pro.start = tok ++ (rest ++ w.beyond k) := by
    rw [hstart, memoryAt, ← hstart, hin, List.append_assoc]
  have hlook : lookupType (memoryAt w s.buffers s.pro.start) tok.length =
      lookupType tok tok.length := by
    rw [hmem]
    exact lookupType_append _ _ _ (le_refl _)
  have hreads := lookupType_reads_le tok tok.length (by omega)
  have hwithin : within (lookupType tok tok.length).2 (inside s.buffers s.pro.start) = true := by
    rw [hin, within, decide_eq_true_eq, List.length_append]
    omega
  have hkeep : ({ s.pro with clean := true } : Protocol) = s.pro := by rw [← hclean]
  simp only [scanType, hn, hlook, hwithin, hclean, Bool.and_true, lookupType_self]
  cases ReqType.ofName tok with
  | none => simp only [hkeep]
  | some t =>
    simp only [← hclean]

lemma scanDataLen_tracks (w : Layout) {s : Scan} {blk o : ℕ} {tok : List UInt8}
    (hclean : s.pro.clean = true) (hstart : s.pro.start = some ⟨blk, o⟩)
    (htok : All isDigit tok) (htext : TextAt s.buffers blk o (tok ++ [CR])) :
    scanDataLen w blk (o + tok.length + 1) s =
      if lengthOf tok = 0 then
        .error (.dataLenInvalid, { s with
          buffers := terminate s.buffers blk (o + tok.length + 1), dataLen := lengthOf tok
          pro := { s.pro with dataLen := lengthOf tok } })
      else
        .ok { s with
          buffers := terminate s.buffers blk (o + tok.length + 1), dataLen := lengthOf tok
          pro := { s.pro with dataLen := lengthOf tok }, state := .dataLenLf } := by
  obtain ⟨rest, hrest⟩ := htext
  let bs := terminate s.buffers blk (o + tok.length + 1)
  -- the CR behind the numeral has become NUL
  have hin : inside bs s.pro.start = tok ++ NUL :: rest := by
    rw [hstart, inside]
    simp only [bs, received_terminate, if_true, Nat.add_sub_cancel, Nat.succ_ne_zero, if_false]
    rw [List.drop_set, if_neg (by omega), hrest, Nat.add_sub_cancel_left]
    simp
  have hmem : memoryAt w bs s.pro.start = tok ++ NUL :: (rest ++ w.beyond blk) := by
    rw [hstart, memoryAt, ← hstart, hin]
    simp
  have hatoi : toSizeT (atoi (memoryAt w bs s.pro.start)) = lengthOf tok := by
    rw [hmem, atoi, cString_digits htok, lengthOf, atoi, cString_self htok]
  have hwithin : within (atoiReads (memoryAt w bs s.pro.start)) (inside bs s.pro.start) = true := by
    have hnul : NUL ∈ inside bs s.pro.start := by simp [hin]
    have heq : memoryAt w bs s.pro.start = inside bs s.pro.start ++ w.beyond blk := by
      rw [hstart, memoryAt]
    rw [heq, atoiReads_append _ _ hnul, within, decide_eq_true_eq]
    exact atoiReads_le _ hnul
  simp only [bs] at hatoi hwithin
  simp only [scanDataLen, hatoi, hwithin, hclean, Nat.zero_lt_succ, decide_true, Bool.and_true]

/-- **One step follows the language.** The scan of a received byte fails exactly
as the machine does, or reaches a state that stands for the next phase. -/
theorem scanByte_tracks (w : Layout) {blk off : ℕ} {c : UInt8} {s : Scan} {ph : Phase}
    (ht : Tracks blk off s ph) (hc : (received s.buffers blk)[off]? = some c) :
    match advance ph c with
    | .error e => ∃ s', scanByte w blk off c s = .error (e, s')
    | .ok ph' => ∃ s', scanByte w blk off c s = .ok s' ∧ Tracks blk (off + 1) s' ph' := by
  obtain ⟨hclean, hlen, hst⟩ := ht
  cases ph with
  | start =>
    obtain ⟨hs, hty⟩ := hst
    simp only [advance, scanByte, hs]
    by_cases hb : isBlank c = true
    · simp only [hb, if_true]
      exact ⟨s, rfl, hclean, hlen, hs, hty⟩
    by_cases hu : isUpper c = true
    · simp only [hb, hu, if_true, if_false, Bool.not_true, Bool.false_eq_true]
      exact ⟨_, rfl, hclean, hlen, rfl, hty, off, rfl, rfl, textAt_singleton hc⟩
    · simp [hb, hu]
  | type tok =>
    obtain ⟨hs, hty, o, hstart, rfl, htext⟩ := hst
    simp only [advance, scanByte, hs, beq_iff_eq]
    by_cases hcr : c = CR
    · simp only [hcr, if_true]
      exact ⟨_, rfl, hclean, hlen, rfl, hty, blk, o, hstart, rfl, htext⟩
    by_cases hu : isUpper c = true
    · simp only [hcr, hu, if_true, if_false, Bool.not_true, Bool.false_eq_true]
      exact ⟨s, rfl, hclean, hlen, hs, hty, o, hstart, by simp; omega, htext.snoc hc⟩
    · simp [hcr, hu]
  | typeCr tok =>
    obtain ⟨hs, hty, k, o, hstart, hend, htext⟩ := hst
    have hscan := scanType_tracks w hclean hstart hend htext
    simp only [advance, scanByte, hs, bne_iff_ne, ne_eq]
    by_cases hlf : c = LF
    · simp only [hlf, not_true, if_true, if_false, hscan]
      cases hname : ReqType.ofName tok with
      | none => exact ⟨_, rfl⟩
      | some t => exact ⟨_, rfl, hclean, hlen, rfl, rfl, (ofName_eq_some.mp hname).1⟩
    · simp [hlf]
  | typeLf t =>
    obtain ⟨hs, hty, hknown⟩ := hst
    simp only [advance, scanByte, hs, beq_iff_eq]
    by_cases hcr : c = CR
    · simp only [hcr, if_true]
      exact ⟨_, rfl, hclean, hlen, rfl, hty, hknown⟩
    by_cases hh : isHeaderByte c = true
    · simp only [hcr, hh, if_true, if_false, Bool.not_true, Bool.false_eq_true]
      exact ⟨_, rfl, hclean, hlen, rfl, hty, hknown⟩
    · simp [hcr, hh]
  | headers t =>
    obtain ⟨hs, hty, hknown⟩ := hst
    simp only [advance, scanByte, hs, beq_iff_eq]
    by_cases hcr : c = CR
    · simp only [hcr, if_true]
      exact ⟨_, rfl, hclean, hlen, rfl, hty, hknown⟩
    by_cases hh : isHeaderByte c = true
    · simp only [hcr, hh, if_true, if_false, Bool.not_true, Bool.false_eq_true]
      exact ⟨s, rfl, hclean, hlen, hs, hty, hknown⟩
    · simp [hcr, hh]
  | headersCr t =>
    obtain ⟨hs, hty, hknown⟩ := hst
    simp only [advance, scanByte, hs, bne_iff_ne, ne_eq]
    by_cases hlf : c = LF
    · simp only [hlf, not_true, if_true, if_false]
      exact ⟨_, rfl, hclean, hlen, rfl, hty, hknown⟩
    · simp [hlf]
  | headersLf t =>
    obtain ⟨hs, hty, hknown⟩ := hst
    simp only [advance, scanByte, hs, hty, bne_iff_ne, ne_eq]
    by_cases hput : t = .put
    · by_cases hd : isDigit c = true
      · simp only [hput, hd, not_true, if_true, if_false, Bool.not_true, Bool.false_eq_true]
        exact ⟨_, rfl, hclean, hlen, rfl, rfl, All.singleton hd, off, rfl, rfl,
          textAt_singleton hc⟩
      · simp [hput, hd]
    · simp [hput]
  | dataLen tok =>
    obtain ⟨hs, hty, hdig, o, hstart, rfl, htext⟩ := hst
    simp only [advance, scanByte, hs, beq_iff_eq]
    by_cases hcr : c = CR
    · simp only [hcr, if_true]
      exact ⟨_, rfl, hclean, hlen, rfl, hty, hdig, o, hstart, rfl, htext.snoc (hcr ▸ hc)⟩
    by_cases hd : isDigit c = true
    · simp only [hcr, hd, if_true, if_false, Bool.not_true, Bool.false_eq_true]
      exact ⟨s, rfl, hclean, hlen, hs, hty, hdig.snoc hd, o, hstart, by simp; omega,
        htext.snoc hc⟩
    · simp [hcr, hd]
  | dataLenCr tok =>
    obtain ⟨hs, hty, hdig, o, hstart, rfl, htext⟩ := hst
    have hscan := scanDataLen_tracks w hclean hstart hdig htext
    simp only [advance, scanByte, hs, bne_iff_ne, ne_eq]
    by_cases hlf : c = LF
    · by_cases hz : lengthOf tok = 0
      · simp only [hlf, not_true, if_true, if_false, hscan, hz]
        exact ⟨_, rfl⟩
      · simp only [hlf, not_true, if_true, if_false, hscan, hz]
        exact ⟨_, rfl, hclean, rfl, rfl, hty, rfl, by omega, lengthOf_lt tok⟩
    · simp [hlf]
  | dataLenLf n =>
    obtain ⟨hs, hty, hn, h1, h64⟩ := hst
    simp only [advance, scanByte, hs]
    refine ⟨_, rfl, hclean, hlen, rfl, hty, ?_⟩
    simp only [hn, toSizeT]
    omega
  | data n k =>
    obtain ⟨hs, hty, hk⟩ := hst
    simp only [advance, scanByte, hs, hk]
    by_cases h0 : k = 0
    · simp [h0]
    · simp only [h0, if_false]
      exact ⟨_, rfl, hclean, hlen, rfl, hty, rfl⟩

lemma drop_received_scanByte {w : Layout} {blk off : ℕ} {c : UInt8} {s s' : Scan}
    (h : scanByte w blk off c s = .ok s') :
    (received s'.buffers blk).drop (off + 1) = (received s.buffers blk).drop (off + 1) := by
  rcases scanByte_buffers h with h | h
  · rw [h]
  · rw [h, received_terminate, if_pos rfl]
    split_ifs
    · rfl
    · rw [List.drop_set, if_pos (by omega)]

/-- A machine whose steps the scan makes one by one is followed over received bytes. -/
lemma scan_simulates {σ : Type} {step : σ → UInt8 → Except Code σ} {R : ℕ → Scan → σ → Prop}
    (w : Layout) {blk : ℕ}
    (hstep : ∀ off c s ph, R off s ph → (received s.buffers blk)[off]? = some c →
      (∀ e, step ph c = .error e → ∃ s', scanByte w blk off c s = .error (e, s')) ∧
      ∀ ph', step ph c = .ok ph' → ∃ s', scanByte w blk off c s = .ok s' ∧ R (off + 1) s' ph')
    {off : ℕ} {s : Scan} {ph : σ} (cs rest : List UInt8) (ht : R off s ph)
    (hcs : (received s.buffers blk).drop off = cs ++ rest) :
    (∀ e, run step ph cs = .error e → ∃ s', scan w blk cs.length off s = .error (e, s')) ∧
      ∀ ph', run step ph cs = .ok ph' →
        ∃ s', scan w blk cs.length off s = .ok s' ∧ R (off + cs.length) s' ph' := by
  induction cs generalizing off s ph with
  | nil =>
    refine ⟨fun e h => ?_, fun ph' h => ?_⟩
    · cases h
    · cases h
      exact ⟨s, rfl, ht⟩
  | cons c cs ih =>
    have hc : (received s.buffers blk)[off]? = some c := by
      have h0 : ((received s.buffers blk).drop off)[0]? = some c := by simp [hcs]
      rwa [List.getElem?_drop, Nat.add_zero] at h0
    have htouch : s.touch blk off = s := by
      simp [Scan.touch, hc]
    obtain ⟨hbad, hgo⟩ := hstep off c s ph ht hc
    rw [List.length_cons, scan_succ, htouch, hc, Option.getD_some]
    cases ha : step ph c with
    | error e =>
      obtain ⟨s', hs'⟩ := hbad e ha
      rw [run_cons_error ha, hs']
      refine ⟨fun e' h => ?_, fun ph' h => ?_⟩
      · cases h
        exact ⟨s', rfl⟩
      · cases h
    | ok ph' =>
      obtain ⟨s', hs', ht'⟩ := hgo ph' ha
      have hrest : (received s'.buffers blk).drop (off + 1) = cs ++ rest := by
        rw [drop_received_scanByte hs', ← List.drop_drop, hcs]
        rfl
      rw [run_cons_ok ha, hs', show off + (cs.length + 1) = off + 1 + cs.length by omega]
      exact ih ht' hrest

/-- The scan of received bytes follows the run of the machine over them. -/
theorem scan_tracks (w : Layout) {blk off : ℕ} {s : Scan} {ph : Phase} (cs rest : List UInt8)
    (ht : Tracks blk off s ph) (hcs : (received s.buffers blk).drop off = cs ++ rest) :
    match run advance ph cs with
    | .error e => ∃ s', scan w blk cs.length off s = .error (e, s')
    | .ok ph' => ∃ s', scan w blk cs.length off s = .ok s' ∧ Tracks blk (off + cs.length) s' ph' := by
  obtain ⟨hbad, hgo⟩ := @scan_simulates _ advance (Tracks blk) w blk (fun off c s ph h hc => by
    have hnext := scanByte_tracks w h hc
    constructor
    · intro e he
      rwa [he] at hnext
    · intro ph' hph
      rwa [hph] at hnext) off s ph cs rest ht hcs
  cases hrun : run advance ph cs with
  | error e => exact hbad e hrun
  | ok ph' => exact hgo ph' hrun

/-- The tests after the loop recognise the phases that end a request. -/
lemma complete_iff_completeType {blk off : ℕ} {s : Scan} {ph : Phase} (h : Tracks blk off s ph) :
    Complete s.pro.type s.state s.dataLen ↔ ph.completeType = some s.pro.type := by
  have hst := h.stands
  unfold Complete
  cases ph with
  | headersLf t =>
    obtain ⟨hs, rfl, hknown⟩ := hst
    simp [hs, Phase.completeType, hknown]
  | data n k =>
    obtain ⟨hs, hty, rfl⟩ := hst
    cases hk : s.dataLen with
    | zero => simp [hs, hty, Phase.completeType]
    | succ k => simp [hs, Phase.completeType]
  | _ => simp [hst.1, Phase.completeType]

lemma TextAt.extend {bs : List Buffer} {k o : ℕ} {tok : List UInt8} (hbs : bs ≠ [])
    (h : TextAt bs k o tok) (x : List UInt8) : TextAt (extendLast bs x) k o tok := by
  obtain ⟨rest, hrest⟩ := h
  cases tok with
  | nil => exact TextAt.nil ..
  | cons c tok =>
    have ho : o ≤ (received bs k).length := by
      by_contra ho
      rw [List.drop_eq_nil_of_le (by omega)] at hrest
      simp at hrest
    unfold TextAt
    rw [received_extendLast bs x k hbs]
    split_ifs
    · exact ⟨rest ++ x, by rw [List.drop_append_of_le_length ho, hrest, List.append_assoc]⟩
    · exact ⟨rest, hrest⟩

/-- More bytes in the last block do not disturb the text already received. -/
lemma Tracks.extend {blk off : ℕ} {s : Scan} {ph : Phase} (h : Tracks blk off s ph)
    (hbs : s.buffers ≠ []) (x : List UInt8) : Tracks blk off (s.extend x) ph := by
  refine ⟨h.clean, h.dataLen, ?_⟩
  have hst := h.stands
  cases ph with
  | type tok =>
    obtain ⟨hs, hty, o, hstart, hoff, htext⟩ := hst
    exact ⟨hs, hty, o, hstart, hoff, htext.extend hbs x⟩
  | typeCr tok =>
    obtain ⟨hs, hty, k, o, hstart, hend, htext⟩ := hst
    exact ⟨hs, hty, k, o, hstart, hend, htext.extend hbs x⟩
  | dataLen tok =>
    obtain ⟨hs, hty, hdig, o, hstart, hoff, htext⟩ := hst
    exact ⟨hs, hty, hdig, o, hstart, hoff, htext.extend hbs x⟩
  | dataLenCr tok =>
    obtain ⟨hs, hty, hdig, o, hstart, hoff, htext⟩ := hst
    exact ⟨hs, hty, hdig, o, hstart, hoff, htext.extend hbs x⟩
  | _ => exact hst

/-- The OK exit saves the state it leaves. -/
lemma Tracks.saved {blk off : ℕ} {s : Scan} {ph : Phase} (h : Tracks blk off s ph) :
    Tracks blk off
      ⟨s.buffers, { s.pro with state := s.state, tmpDataLen := s.dataLen }, s.state, s.dataLen⟩ ph := by
  refine ⟨h.clean, h.dataLen, ?_⟩
  have hst := h.stands
  cases ph <;> exact hst

/-- The parser between two calls stands for a phase. -/
def Follows (bs : List Buffer) (pro : Protocol) (ph : Phase) : Prop :=
  Tracks (lastIndex bs) (received bs (lastIndex bs)).length
    ⟨bs, pro, pro.state, pro.tmpDataLen⟩ ph

/-- A call on `chunk` follows the run of the machine over it. -/
theorem parseChunk_follows (w : Layout) {bs : List Buffer} {pro : Protocol} {ph : Phase}
    (hbs : bs ≠ []) (hf : Follows bs pro ph) (chunk : List UInt8) :
    match run advance ph chunk with
    | .error e => (parseChunk w bs pro chunk).code = e
    | .ok ph' =>
      (ph'.completeType = none → (parseChunk w bs pro chunk).code = .ok ∧
        Follows (parseChunk w bs pro chunk).buffers (parseChunk w bs pro chunk).pro ph') ∧
      ∀ t, ph'.completeType = some t → (parseChunk w bs pro chunk).code = .done ∧
        (parseChunk w bs pro chunk).pro.type = t ∧
        (parseChunk w bs pro chunk).pro.dataLen = ph'.length ∧
        (parseChunk w bs pro chunk).pro.clean = true := by
  have hrec := received_last_extend hbs chunk
  have hentry : Tracks (lastIndex bs) (received bs (lastIndex bs)).length (entry bs pro chunk) ph :=
    Tracks.extend hf hbs chunk
  have hscan := scan_tracks w chunk [] hentry (by simp [entry, hrec])
  rw [parseChunk_eq]
  cases hrun : run advance ph chunk with
  | error e =>
    rw [hrun] at hscan
    obtain ⟨s', hs'⟩ := hscan
    simp only [hs']
  | ok ph' =>
    rw [hrun] at hscan
    obtain ⟨s', hs', ht'⟩ := hscan
    have hcomplete := complete_iff_completeType ht'
    simp only [hs']
    refine ⟨fun hnone => ?_, fun t hsome => ?_⟩
    · have hshape : SameShape (extendLast bs chunk) s'.buffers := scan_shape hs'
      obtain ⟨hlast, hlen⟩ := received_length_of_shape hbs hshape
      rw [finishScan_of_not_complete (by simp [hcomplete, hnone])]
      refine ⟨rfl, ?_⟩
      unfold Follows
      rw [hlen, hlast]
      exact ht'.saved
    · have hty : s'.pro.type = t := by
        have hst := ht'.stands
        cases ph' with
        | headersLf t' =>
          simp only [Phase.completeType] at hsome
          split_ifs at hsome
          exact hst.2.1.trans (Option.some.inj hsome)
        | data n k =>
          cases k with
          | zero => exact hst.2.1.trans (Option.some.inj hsome)
          | succ k => simp [Phase.completeType] at hsome
        | _ => simp [Phase.completeType] at hsome
      have hc : Complete s'.pro.type s'.state s'.dataLen := hcomplete.mpr (hty ▸ hsome)
      refine ⟨finishScan_of_complete hc _, ?_⟩
      unfold finishScan
      split_ifs <;> exact ⟨hty, ht'.dataLen, ht'.clean⟩

/-! ## The language accepted in one buffer -/

lemma follows_init (size : ℕ) : Follows [⟨size, []⟩] protocolInit .start :=
  ⟨rfl, rfl, rfl, rfl⟩

/-- The phase in which a request ends. -/
def WireRequest.lastPhase (m : WireRequest) : Phase :=
  if m.type = .put then .data (decimal m.numeral) 0 else .headersLf m.type

/-- A request whose numeral keeps its value leads to its last phase. -/
lemma WireRequest.spells (m : WireRequest)
    (h : m.type = .put → lengthOf m.numeral = decimal m.numeral) :
    Spells m.lastPhase m.bytes := by
  unfold WireRequest.lastPhase WireRequest.bytes
  by_cases hput : m.type = .put
  · obtain ⟨hne, hdig⟩ := m.numeral_ok hput
    obtain ⟨hpos, hbody⟩ := m.body_ok hput
    have hD : m.body ≠ [] := by
      intro h0
      rw [h0] at hbody
      simp at hbody
      omega
    rw [if_pos hput, if_pos hput]
    refine ⟨m.blanks, m.headers, m.numeral, m.body, m.blanks_ok, m.headers_ok, hne, hdig,
      (h hput).symm, by omega, hD, by omega, ?_⟩
    rw [hput]
    simp
  · rw [if_neg hput, if_neg hput, List.append_nil]
    exact ⟨m.blanks, m.headers, m.blanks_ok, m.type_known, m.headers_ok, rfl⟩

/-- A string that leads to a complete phase is a request, if its numeral keeps
its value. -/
lemma exists_wireRequest {ph : Phase} {s : List UInt8} {t : ReqType} (h : Spells ph s)
    (hc : ph.completeType = some t)
    (hlen : ∀ B H N D, All isBlank B → All isHeaderByte H → N ≠ [] → All isDigit N →
      s = headLines B .put H ++ N ++ crlf ++ D → lengthOf N = decimal N) :
    ∃ m : WireRequest, m.type = t ∧ m.bytes = s := by
  cases ph with
  | headersLf t' =>
    obtain ⟨B, H, hB, hknown, hH, rfl⟩ := h
    simp only [Phase.completeType] at hc
    split_ifs at hc with hput
    obtain rfl := Option.some.inj hc
    exact ⟨⟨t', B, H, [], [], hknown, hB, hH, fun h => absurd h hput, fun h => absurd h hput⟩,
      rfl, by simp [WireRequest.bytes, hput]⟩
  | data n k =>
    cases k with
    | succ k => simp [Phase.completeType] at hc
    | zero =>
      obtain ⟨B, H, N, D, hB, hH, hne, hN, hn, hn0, -, hk, rfl⟩ := h
      obtain rfl := Option.some.inj hc
      have hdec := hlen B H N D hB hH hne hN rfl
      exact ⟨⟨.put, B, H, N, D, by simp, hB, hH, fun _ => ⟨hne, hN⟩,
        fun _ => ⟨by omega, by omega⟩⟩, rfl, by simp [WireRequest.bytes]⟩
  | _ => simp [Phase.completeType] at hc

/-- **The parser accepts exactly its language.** In one buffer a fresh parser
returns DONE with type `t` exactly on the requests of that type, as long as the
length field, if there is one, fits in an `int`. -/
theorem protocolParse_done_iff (w : Layout) (size : ℕ) (s : List UInt8)
    (hlen : ∀ B H N D, All isBlank B → All isHeaderByte H → N ≠ [] → All isDigit N →
      s = headLines B .put H ++ N ++ crlf ++ D → decimal N ≤ 2147483647) (t : ReqType) :
    ((parseChunk w [⟨size, []⟩] protocolInit s).code = .done ∧
      (parseChunk w [⟨size, []⟩] protocolInit s).pro.type = t) ↔
      ∃ m : WireRequest, m.type = t ∧ m.bytes = s := by
  have hkeep : ∀ B H N D, All isBlank B → All isHeaderByte H → N ≠ [] → All isDigit N →
      s = headLines B .put H ++ N ++ crlf ++ D → lengthOf N = decimal N :=
    fun B H N D hB hH hne hN hs => (lengthOf_eq_iff hN).mpr (Or.inl (hlen B H N D hB hH hne hN hs))
  have hfollow := parseChunk_follows w (by simp) (follows_init size) s
  have hrequest (m : WireRequest) (hm : m.bytes = s) :
      run advance .start s = .ok m.lastPhase ∧ m.lastPhase.completeType = some m.type := by
    refine ⟨hm ▸ spells_run (m.spells (fun hput => ?_)), ?_⟩
    · obtain ⟨hne, hN⟩ := m.numeral_ok hput
      refine hkeep m.blanks m.headers m.numeral m.body m.blanks_ok m.headers_ok hne hN ?_
      rw [← hm, WireRequest.bytes, if_pos hput, hput]
      simp
    · unfold WireRequest.lastPhase
      split_ifs with hput
      · simp [Phase.completeType, hput]
      · simp [Phase.completeType, hput]
  cases hrun : run advance .start s with
  | error e =>
    rw [hrun] at hfollow
    refine iff_of_false (fun h => ?_) ?_
    · have hdone := h.1
      exact (advance_run_error hrun).2 (hfollow.symm.trans hdone)
    · rintro ⟨m, -, hm⟩
      have := (hrequest m hm).1
      rw [hrun] at this
      cases this
  | ok ph =>
    rw [hrun] at hfollow
    obtain ⟨hopen, hclosed⟩ := hfollow
    constructor
    · rintro ⟨hdone, hty⟩
      cases hc : ph.completeType with
      | none =>
        have := (hopen hc).1
        rw [hdone] at this
        cases this
      | some t' =>
        obtain rfl : t' = t := (hclosed t' hc).2.1.symm.trans hty
        exact exists_wireRequest ((advance_run_iff ph s).mp hrun) hc hkeep
    · rintro ⟨m, rfl, hm⟩
      obtain ⟨hrun', hc⟩ := hrequest m hm
      obtain rfl : ph = m.lastPhase := by
        rw [hrun] at hrun'
        exact Except.ok.inj hrun'
      exact ⟨(hclosed _ hc).1, (hclosed _ hc).2.1⟩

/-- A `PUT` with one leading blank, an empty headers line and a one-byte body. -/
theorem protocolParse_done_put :
    (parseChunk .spaced [⟨1024, []⟩] protocolInit
      [32, 80, 85, 84, 13, 10, 13, 10, 49, 13, 10, 0]).code = .done ∧
    (parseChunk .spaced [⟨1024, []⟩] protocolInit
      [32, 80, 85, 84, 13, 10, 13, 10, 49, 13, 10, 0]).pro.type = .put :=
  (protocolParse_done_iff .spaced 1024 [32, 80, 85, 84, 13, 10, 13, 10, 49, 13, 10, 0]
    (fun B H N D _ _ _ hN hs => by
      have hshort : N.length ≤ 3 := by
        have htotal := congrArg List.length hs
        simp [headLines, typeLine, crlf, ReqType.name] at htotal
        omega
      calc decimal N ≤ 10 ^ N.length := (decimal_lt hN).le
        _ ≤ 10 ^ 3 := Nat.pow_le_pow_right (by norm_num) hshort
        _ ≤ 2147483647 := by norm_num) .put).mpr ⟨⟨.put, [32], [], [49], [0], by decide, by decide,
      by decide, fun _ => ⟨by decide, by decide⟩, fun _ => by decide⟩,
      rfl, by decide⟩

end Xpipe
