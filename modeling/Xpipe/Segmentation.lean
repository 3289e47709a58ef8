import Xpipe.Protocol

/-!
# Segmentation of the request parser

Cutting a byte string into two calls changes neither the result nor what the
parser records, as long as the first call does not already end the request.
The scan of a chunk is not disturbed by bytes that arrive behind it
(`scan_extend`): the pointers a scan follows lie in an earlier block or in
front of the byte being read (`Tame`), the type comparison stops at the end of
the token, and the numeral is terminated before it is converted.
-/
namespace Xpipe

/-! ## C string walks that end inside the received bytes -/

lemma strncmpEq_append (l x lit : List UInt8) (h : lit.length ≤ l.length) :
    strncmpEq (l ++ x) lit = strncmpEq l lit := by
  induction lit generalizing l with
  | nil => simp [strncmpEq]
  | cons b lit ih =>
    cases l with
    | nil => simp at h
    | cons a l => simp [strncmpEq, ih l (by simpa using h)]

lemma strncmpReads_append (l x lit : List UInt8) (h : lit.length ≤ l.length) :
    strncmpReads (l ++ x) lit = strncmpReads l lit := by
  induction lit generalizing l with
  | nil => simp [strncmpReads]
  | cons b lit ih =>
    cases l with
    | nil => simp at h
    | cons a l => simp [strncmpReads, ih l (by simpa using h)]

lemma strncmpReads_le (s lit : List UInt8) : strncmpReads s lit ≤ lit.length := by
  induction lit generalizing s with
  | nil => cases s <;> simp [strncmpReads]
  | cons b lit ih =>
    cases s with
    | nil => simp [strncmpReads]
    | cons a s =>
      have := ih s
      simp only [strncmpReads, List.length_cons]
      split_ifs <;> omega

lemma lookupType_append (l x : List UInt8) (n : ℤ) (h : n ≤ l.length) :
    lookupType (l ++ x) n = lookupType l n := by
  unfold lookupType
  by_cases h3 : n = 3
  · have hp : ReqType.put.name.length ≤ l.length := by simp [ReqType.name]; omega
    have hg : ReqType.get.name.length ≤ l.length := by simp [ReqType.name]; omega
    simp only [if_pos h3, strncmpEq_append _ _ _ hp, strncmpReads_append _ _ _ hp,
      strncmpEq_append _ _ _ hg, strncmpReads_append _ _ _ hg]
  by_cases h4 : n = 4
  · have hl : ReqType.list.name.length ≤ l.length := by simp [ReqType.name]; omega
    simp only [if_neg h3, if_pos h4, strncmpEq_append _ _ _ hl, strncmpReads_append _ _ _ hl]
  by_cases h5 : n = 5
  · have hq : ReqType.queue.name.length ≤ l.length := by simp [ReqType.name]; omega
    simp only [if_neg h3, if_neg h4, if_pos h5, strncmpEq_append _ _ _ hq,
      strncmpReads_append _ _ _ hq]
  · simp only [if_neg h3, if_neg h4, if_neg h5]

lemma lookupType_reads_le (l : List UInt8) (n : ℤ) (hn : 0 ≤ n) :
    ((lookupType l n).2 : ℤ) ≤ n := by
  have hp := strncmpReads_le l ReqType.put.name
  have hg := strncmpReads_le l ReqType.get.name
  have hl := strncmpReads_le l ReqType.list.name
  have hq := strncmpReads_le l ReqType.queue.name
  simp only [ReqType.name, List.length_cons, List.length_nil] at hp hg hl hq
  unfold lookupType
  by_cases h3 : n = 3
  · rw [if_pos h3]
    split
    · simp only [ReqType.name]
      omega
    · split <;> simp only [ReqType.name] <;> omega
  by_cases h4 : n = 4
  · simp only [if_neg h3, if_pos h4, ReqType.name]
    omega
  by_cases h5 : n = 5
  · simp only [if_neg h3, if_neg h4, if_pos h5, ReqType.name]
    omega
  · simp only [if_neg h3, if_neg h4, if_neg h5]
    omega

lemma cString_append (l x : List UInt8) (h : NUL ∈ l) : cString (l ++ x) = cString l := by
  induction l with
  | nil => simp at h
  | cons a l ih =>
    unfold cString at *
    by_cases ha : a = NUL
    · simp [ha]
    · have hl : NUL ∈ l := by simpa [Ne.symm ha] using h
      simp [ha, ih hl]

lemma length_cString_lt (l : List UInt8) (h : NUL ∈ l) : (cString l).length < l.length := by
  induction l with
  | nil => simp at h
  | cons a l ih =>
    unfold cString at *
    by_cases ha : a = NUL
    · simp [ha]
    · have hl : NUL ∈ l := by simpa [Ne.symm ha] using h
      simpa [ha] using ih hl

lemma length_splitSign_le (s : List UInt8) : (splitSign s).2.length ≤ s.length := by
  cases s with
  | nil => simp [splitSign]
  | cons c s =>
    simp only [splitSign]
    split_ifs <;> simp

lemma strtolReads_le (s : List UInt8) : strtolReads s ≤ s.length + 1 := by
  have h1 := length_splitSign_le (s.dropWhile isSpace)
  have h2 := (List.dropWhile_sublist (p := isSpace) (l := s)).length_le
  have h3 := (List.takeWhile_sublist (p := isDigit)
    (l := (splitSign (s.dropWhile isSpace)).2)).length_le
  simp only [strtolReads]
  omega

lemma atoi_append (l x : List UInt8) (h : NUL ∈ l) : atoi (l ++ x) = atoi l := by
  simp only [atoi, cString_append l x h]

lemma atoiReads_append (l x : List UInt8) (h : NUL ∈ l) : atoiReads (l ++ x) = atoiReads l := by
  simp only [atoiReads, cString_append l x h]

lemma atoiReads_le (l : List UInt8) (h : NUL ∈ l) : atoiReads l ≤ l.length := by
  have h1 := strtolReads_le (cString l)
  have h2 := length_cString_lt l h
  simp only [atoiReads]
  omega

/-! ## Pointers that lie behind the byte being read -/

/-- `q` points in front of offset `off` of block `blk`, or into an earlier block. -/
def Ptr.Before (q : Ptr) (blk off : ℕ) : Prop := q.blk < blk ∨ q.blk = blk ∧ q.off < off

/-- The states in which `pro->start` is still to be followed. -/
def Sw.inToken : Sw → Bool
  | .type | .typeCr | .dataLen | .dataLenCr => true
  | _ => false

/-- The saved token pointers lie behind the byte at `⟨blk, off⟩`, and a type
token that starts in this block also ends in it. -/
structure Tame (blk off : ℕ) (state : Sw) (pro : Protocol) : Prop where
  start : state.inToken = true → ∃ q, pro.start = some q ∧ q.Before blk off
  tokEnd : state = .typeCr → ∃ q e, pro.start = some q ∧ pro.tokEnd = some e ∧
    (q.blk = blk → e.blk = blk ∧ q.off ≤ e.off ∧ e.off ≤ off)

lemma Tame.mono {blk blk' off off' : ℕ} {state : Sw} {pro : Protocol}
    (h : Tame blk off state pro) (hb : blk < blk' ∨ blk = blk' ∧ off ≤ off') :
    Tame blk' off' state pro := by
  refine ⟨fun hs => ?_, fun hs => ?_⟩
  · obtain ⟨q, hq, hbefore⟩ := h.start hs
    refine ⟨q, hq, ?_⟩
    unfold Ptr.Before at *
    omega
  · obtain ⟨q, e, hq, he, hsame⟩ := h.tokEnd hs
    obtain ⟨q', hq', hbefore⟩ := h.start (by simp [hs, Sw.inToken])
    obtain rfl : q = q' := Option.some.inj (hq.symm.trans hq')
    refine ⟨q, e, hq, he, fun hqb => ?_⟩
    unfold Ptr.Before at hbefore
    have := hsame (by omega)
    omega

/-- Every saved pointer stays behind as the scan moves over one byte. -/
lemma scanByte_tame {w : Layout} {blk off : ℕ} {c : UInt8} {s s' : Scan}
    (h : scanByte w blk off c s = .ok s') (ht : Tame blk off s.state s.pro) :
    Tame blk (off + 1) s'.state s'.pro := by
  have hmono : Tame blk (off + 1) s.state s.pro := ht.mono (by omega)
  unfold scanByte at h
  cases hs : s.state with
  | start =>
    simp only [hs] at h
    split_ifs at h <;> cases h
    · exact hs ▸ hmono
    · exact ⟨fun _ => ⟨⟨blk, off⟩, rfl, Or.inr ⟨rfl, by simp⟩⟩, by simp⟩
  | type =>
    simp only [hs] at h
    split_ifs at h <;> cases h
    · refine ⟨fun _ => hmono.start (by simp [hs, Sw.inToken]), fun _ => ?_⟩
      obtain ⟨q, hq, hbefore⟩ := ht.start (by simp [hs, Sw.inToken])
      refine ⟨q, ⟨blk, off⟩, hq, rfl, fun hqb => ⟨rfl, ?_, by simp⟩⟩
      unfold Ptr.Before at hbefore
      show q.off ≤ off
      omega
    · exact hs ▸ hmono
  | typeCr =>
    simp only [hs, scanType] at h
    split_ifs at h
    split at h <;> cases h
    exact ⟨by simp [Sw.inToken], by simp⟩
  | typeLf =>
    simp only [hs] at h
    split_ifs at h <;> cases h <;> exact ⟨by simp [Sw.inToken], by simp⟩
  | headers =>
    simp only [hs] at h
    split_ifs at h <;> cases h
    · exact ⟨by simp [Sw.inToken], by simp⟩
    · exact hs ▸ hmono
  | headersCr =>
    simp only [hs] at h
    split_ifs at h
    cases h
    exact ⟨by simp [Sw.inToken], by simp⟩
  | headersLf =>
    simp only [hs] at h
    split_ifs at h
    cases h
    exact ⟨fun _ => ⟨⟨blk, off⟩, rfl, Or.inr ⟨rfl, by simp⟩⟩, by simp⟩
  | dataLen =>
    simp only [hs] at h
    split_ifs at h <;> cases h
    · exact ⟨fun _ => hmono.start (by simp [hs, Sw.inToken]), by simp⟩
    · exact hs ▸ hmono
  | dataLenCr =>
    simp only [hs, scanDataLen] at h
    split_ifs at h
    cases h
    exact ⟨by simp [Sw.inToken], by simp⟩
  | dataLenLf =>
    simp only [hs] at h
    cases h
    exact ⟨by simp [Sw.inToken], by simp⟩
  | data =>
    simp only [hs] at h
    split_ifs at h
    cases h
    exact hs ▸ hmono

/-! ## Bytes that arrive behind the scan -/

/-- The scan state with more bytes received behind the ones being scanned. -/
abbrev Scan.extend (s : Scan) (x : List UInt8) : Scan :=
  { s with buffers := extendLast s.buffers x }

/-- A change of the scan state, applied to whatever a step returns. -/
def mapResult (f : Scan → Scan) : Except (Code × Scan) Scan → Except (Code × Scan) Scan
  | .error e => .error (e.1, f e.2)
  | .ok s => .ok (f s)

lemma inside_extendLast_ne {bs : List Buffer} {x : List UInt8} {q : Ptr} (hbs : bs ≠ [])
    (h : q.blk ≠ lastIndex bs) : inside (extendLast bs x) (some q) = inside bs (some q) := by
  simp only [inside, received_extendLast bs x _ hbs, if_neg h]

lemma inside_extendLast {bs : List Buffer} {x : List UInt8} {q : Ptr} (hbs : bs ≠ [])
    (h : q.blk = lastIndex bs) (hoff : q.off ≤ (received bs q.blk).length) :
    inside (extendLast bs x) (some q) = inside bs (some q) ++ x := by
  simp only [inside, received_extendLast bs x _ hbs, if_pos h, List.drop_append_of_le_length hoff]

@[simp] lemma length_terminate (bs : List Buffer) (blk off : ℕ) :
    (terminate bs blk off).length = bs.length := by
  unfold terminate
  split_ifs <;> simp

lemma sizes_terminate (bs : List Buffer) (blk off : ℕ) :
    (terminate bs blk off).map Buffer.size = bs.map Buffer.size := by
  unfold terminate
  split_ifs
  · rfl
  · exact sizes_setByte ..

@[simp] lemma lastIndex_terminate (bs : List Buffer) (blk off : ℕ) :
    lastIndex (terminate bs blk off) = lastIndex bs := by simp [lastIndex]

lemma received_terminate (bs : List Buffer) (blk off k : ℕ) :
    received (terminate bs blk off) k =
      if k = blk then (if off = 0 then received bs k else (received bs k).set (off - 1) NUL)
      else received bs k := by
  unfold terminate
  by_cases h0 : off = 0
  · simp [h0]
  · simp only [if_neg h0, received_setByte]

lemma terminate_extendLast (bs : List Buffer) (x : List UInt8) (off : ℕ)
    (hoff : off ≤ (received bs (lastIndex bs)).length) :
    terminate (extendLast bs x) (lastIndex bs) off =
      extendLast (terminate bs (lastIndex bs) off) x := by
  unfold terminate
  by_cases h0 : off = 0
  · simp only [if_pos h0]
  · simp only [if_neg h0]
    exact setByte_extendLast _ _ _ _ (fun _ => by dsimp only; omega)

lemma scanType_extend (w : Layout) (off : ℕ) (s : Scan) (x : List UInt8)
    (hbs : s.buffers ≠ []) (hs : s.state = .typeCr)
    (ht : Tame (lastIndex s.buffers) off s.state s.pro)
    (hoff : off ≤ (received s.buffers (lastIndex s.buffers)).length) :
    scanType w (s.extend x) = mapResult (Scan.extend · x) (scanType w s) := by
  obtain ⟨q, e, hq, he, hsame⟩ := ht.tokEnd hs
  let n := w.addr (some e) - w.addr (some q)
  have hlook : lookupType (memoryAt w (extendLast s.buffers x) (some q)) n =
      lookupType (memoryAt w s.buffers (some q)) n ∧
      within (lookupType (memoryAt w s.buffers (some q)) n).2
        (inside (extendLast s.buffers x) (some q)) =
      within (lookupType (memoryAt w s.buffers (some q)) n).2 (inside s.buffers (some q)) := by
    by_cases hqb : q.blk = lastIndex s.buffers
    · obtain ⟨heb, hqe, heo⟩ := hsame hqb
      have hn : n = (e.off : ℤ) - q.off := w.addr_sub_same e q (heb.trans hqb.symm)
      have hlen : q.off ≤ (received s.buffers q.blk).length := by rw [hqb]; omega
      have hin : ((e.off : ℤ) - q.off) ≤ (inside s.buffers (some q)).length := by
        simp only [inside, List.length_drop, hqb]
        omega
      have hreads := lookupType_reads_le (inside s.buffers (some q)) ((e.off : ℤ) - q.off) (by omega)
      rw [hn]
      simp only [memoryAt, inside_extendLast hbs hqb hlen, List.append_assoc,
        lookupType_append _ _ _ hin, within, List.length_append, decide_eq_decide, true_and]
      omega
    · simp [memoryAt, inside_extendLast_ne hbs hqb]
  simp only [n] at hlook
  simp only [scanType, Scan.extend, hq, he, hlook.1, hlook.2]
  cases (lookupType (memoryAt w s.buffers (some q)) (w.addr (some e) - w.addr (some q))).1 <;> rfl

lemma scanDataLen_extend (w : Layout) (off : ℕ) (s : Scan) (x : List UInt8)
    (hbs : s.buffers ≠ []) (hs : s.state = .dataLenCr)
    (ht : Tame (lastIndex s.buffers) off s.state s.pro)
    (hoff : off ≤ (received s.buffers (lastIndex s.buffers)).length) :
    scanDataLen w (lastIndex s.buffers) off (s.extend x) =
      mapResult (Scan.extend · x) (scanDataLen w (lastIndex s.buffers) off s) := by
  obtain ⟨q, hq, hbefore⟩ := ht.start (by simp [hs, Sw.inToken])
  let bs := terminate s.buffers (lastIndex s.buffers) off
  have hstore := terminate_extendLast s.buffers x off hoff
  have hlast : lastIndex bs = lastIndex s.buffers := lastIndex_terminate ..
  have hne : bs ≠ [] := by simpa [bs, ← List.length_pos_iff] using hbs
  have hwalk : atoi (memoryAt w (extendLast bs x) (some q)) = atoi (memoryAt w bs (some q)) ∧
      within (atoiReads (memoryAt w (extendLast bs x) (some q)))
        (inside (extendLast bs x) (some q)) =
      within (atoiReads (memoryAt w bs (some q))) (inside bs (some q)) := by
    by_cases hqb : q.blk = lastIndex bs
    · -- the numeral starts in this block, so the NUL just stored ends the walk
      have hqoff : q.off < off := by unfold Ptr.Before at hbefore; omega
      have hrec : received bs q.blk =
          (received s.buffers (lastIndex s.buffers)).set (off - 1) NUL := by
        rw [hqb, hlast]
        simp only [bs, received_terminate, if_true, if_neg (show off ≠ 0 by omega)]
      have hnul : NUL ∈ inside bs (some q) := by
        simp only [inside, hrec]
        apply List.mem_iff_getElem?.mpr
        refine ⟨off - 1 - q.off, ?_⟩
        rw [List.getElem?_drop, show q.off + (off - 1 - q.off) = off - 1 by omega]
        rw [List.getElem?_set_self (by omega)]
      have hlen : q.off ≤ (received bs q.blk).length := by
        rw [hrec, List.length_set]
        omega
      have hreads := atoiReads_le _ hnul
      simp only [memoryAt, inside_extendLast hne hqb hlen, List.append_assoc,
        atoi_append _ _ hnul, atoiReads_append _ _ hnul, within, List.length_append,
        decide_eq_decide, true_and]
      omega
    · simp [memoryAt, inside_extendLast_ne hne hqb]
  simp only [bs] at hwalk
  simp only [scanDataLen, Scan.extend, hq, hstore, hwalk.1, hwalk.2]
  split_ifs <;> rfl

lemma scanByte_extend (w : Layout) (off : ℕ) (c : UInt8) (s : Scan) (x : List UInt8)
    (hbs : s.buffers ≠ []) (ht : Tame (lastIndex s.buffers) off s.state s.pro)
    (hoff : off ≤ (received s.buffers (lastIndex s.buffers)).length) :
    scanByte w (lastIndex s.buffers) off c (s.extend x) =
      mapResult (Scan.extend · x) (scanByte w (lastIndex s.buffers) off c s) := by
  rcases s with ⟨bs, pro, state, n⟩
  have htype := scanType_extend w off ⟨bs, pro, state, n⟩ x hbs
  have hlen := scanDataLen_extend w off ⟨bs, pro, state, n⟩ x hbs
  cases state with
  | typeCr =>
    simp only [scanByte, Scan.extend]
    split_ifs
    · rfl
    · exact htype rfl ht hoff
  | dataLenCr =>
    simp only [scanByte, Scan.extend]
    split_ifs
    · rfl
    · exact hlen rfl ht hoff
  | headersLf =>
    by_cases hput : pro.type = .put <;> cases hd : isDigit c <;>
      simp [scanByte, Scan.extend, mapResult, hput, hd]
  | dataLenLf => rfl
  | data => by_cases h0 : n = 0 <;> simp [scanByte, Scan.extend, mapResult, h0]
  | _ =>
    simp only [scanByte, Scan.extend]
    split_ifs <;> rfl

/-- One step leaves the chain alone or terminates the numeral in it. -/
lemma scanByte_buffers {w : Layout} {blk off : ℕ} {c : UInt8} {s s' : Scan}
    (h : scanByte w blk off c s = .ok s') :
    s'.buffers = s.buffers ∨ s'.buffers = terminate s.buffers blk off := by
  unfold scanByte at h
  cases hs : s.state with
  | typeCr =>
    simp only [hs, scanType] at h
    split_ifs at h
    split at h <;> cases h
    exact Or.inl rfl
  | dataLenCr =>
    simp only [hs, scanDataLen] at h
    split_ifs at h
    cases h
    exact Or.inr rfl
  | dataLenLf =>
    simp only [hs] at h
    cases h
    exact Or.inl rfl
  | _ =>
    simp only [hs] at h
    split_ifs at h <;> cases h <;> exact Or.inl rfl

/-- The chain keeps its blocks, their capacities and their lengths. -/
def SameShape (bs bs' : List Buffer) : Prop :=
  bs'.map Buffer.size = bs.map Buffer.size ∧
    ∀ k, (received bs' k).length = (received bs k).length

lemma SameShape.refl (bs : List Buffer) : SameShape bs bs := ⟨rfl, fun _ => rfl⟩

lemma SameShape.trans {a b c : List Buffer} (h : SameShape a b) (h' : SameShape b c) :
    SameShape a c := ⟨h'.1.trans h.1, fun k => (h'.2 k).trans (h.2 k)⟩

lemma SameShape.length {a b : List Buffer} (h : SameShape a b) : b.length = a.length := by
  simpa using congrArg List.length h.1

lemma SameShape.lastIndex {a b : List Buffer} (h : SameShape a b) :
    lastIndex b = lastIndex a := by simp only [Xpipe.lastIndex, h.length]

lemma SameShape.ne_nil {a b : List Buffer} (h : SameShape a b) (ha : a ≠ []) : b ≠ [] := by
  have := h.length
  have := List.length_pos_iff.mpr ha
  exact List.length_pos_iff.mp (by omega)

lemma sameShape_terminate (bs : List Buffer) (blk off : ℕ) :
    SameShape bs (terminate bs blk off) := by
  refine ⟨sizes_terminate .., fun k => ?_⟩
  rw [received_terminate]
  split_ifs <;> simp

lemma scanByte_shape {w : Layout} {blk off : ℕ} {c : UInt8} {s s' : Scan}
    (h : scanByte w blk off c s = .ok s') : SameShape s.buffers s'.buffers := by
  rcases scanByte_buffers h with h | h
  · exact h ▸ SameShape.refl _
  · exact h ▸ sameShape_terminate ..

/-- The state the loop body starts from: the byte at `off` has been read. -/
def Scan.touch (s : Scan) (blk off : ℕ) : Scan :=
  { s with pro := { s.pro with clean := s.pro.clean && (received s.buffers blk)[off]?.isSome } }

lemma scan_succ (w : Layout) (blk n off : ℕ) (s : Scan) :
    scan w blk (n + 1) off s =
      match scanByte w blk off ((received s.buffers blk)[off]?.getD NUL) (s.touch blk off) with
      | .error e => .error e
      | .ok s => scan w blk n (off + 1) s := rfl

lemma Tame.touch {blk off : ℕ} {s : Scan} (h : Tame blk off s.state s.pro) (k m : ℕ) :
    Tame blk off (s.touch k m).state (s.touch k m).pro := ⟨h.start, h.tokEnd⟩

/-- A scan that runs to its end keeps the shape of the chain. -/
lemma scan_shape {w : Layout} {blk n off : ℕ} {s s' : Scan} (h : scan w blk n off s = .ok s') :
    SameShape s.buffers s'.buffers := by
  induction n generalizing off s with
  | zero =>
    cases h
    exact SameShape.refl _
  | succ n ih =>
    rw [scan_succ] at h
    split at h
    · cases h
    · rename_i s₁ h₁
      exact (scanByte_shape h₁).trans (ih h)

/-- The chain that a step leaves when it stops the scan: a length that is refused has
been terminated. -/
lemma scanByte_error_buffers {w : Layout} {blk off : ℕ} {c : UInt8} {s : Scan} {e : Code × Scan}
    (h : scanByte w blk off c s = .error e) :
    e.2.buffers = s.buffers ∨
      s.state = .dataLenCr ∧ c = LF ∧ e.2.buffers = terminate s.buffers blk off := by
  unfold scanByte at h
  cases hs : s.state with
  | typeCr =>
    simp only [hs, scanType] at h
    split_ifs at h
    · cases h
      exact Or.inl rfl
    · split at h <;> cases h
      exact Or.inl rfl
  | dataLenCr =>
    simp only [hs, scanDataLen] at h
    split_ifs at h with hlf
    · cases h
      exact Or.inl rfl
    · cases h
      exact Or.inr ⟨rfl, by simpa using hlf, rfl⟩
  | dataLenLf => simp [hs] at h
  | _ =>
    simp only [hs] at h
    split_ifs at h <;> cases h <;> exact Or.inl rfl

/-- A scan that is stopped keeps the shape of the chain, too. -/
lemma scan_error_shape {w : Layout} {blk n off : ℕ} {s : Scan} {e : Code × Scan}
    (h : scan w blk n off s = .error e) : SameShape s.buffers e.2.buffers := by
  induction n generalizing off s with
  | zero => cases h
  | succ n ih =>
    rw [scan_succ] at h
    split at h
    · rename_i e' he'
      cases h
      rcases scanByte_error_buffers he' with hsame | ⟨-, -, hset⟩
      · rw [hsame]
        exact SameShape.refl _
      · rw [hset]
        exact sameShape_terminate ..
    · rename_i s₁ h₁
      exact (scanByte_shape h₁).trans (ih h)

/-- The saved pointers stay behind the scan. -/
lemma scan_tame {w : Layout} {blk n off : ℕ} {s s' : Scan} (h : scan w blk n off s = .ok s')
    (ht : Tame blk off s.state s.pro) : Tame blk (off + n) s'.state s'.pro := by
  induction n generalizing off s with
  | zero =>
    cases h
    exact ht
  | succ n ih =>
    rw [scan_succ] at h
    split at h
    · cases h
    · rename_i s₁ h₁
      rw [show off + (n + 1) = off + 1 + n by omega]
      exact ih h (scanByte_tame h₁ (ht.touch blk off))

/-- Bytes received behind the scanned ones change nothing. -/
lemma scan_extend (w : Layout) (n off : ℕ) (s : Scan) (x : List UInt8)
    (hbs : s.buffers ≠ []) (ht : Tame (lastIndex s.buffers) off s.state s.pro)
    (hoff : off + n ≤ (received s.buffers (lastIndex s.buffers)).length) :
    scan w (lastIndex s.buffers) n off (s.extend x) =
      mapResult (Scan.extend · x) (scan w (lastIndex s.buffers) n off s) := by
  induction n generalizing off s with
  | zero => rfl
  | succ n ih =>
    have hhere : (received (s.extend x).buffers (lastIndex s.buffers))[off]? =
        (received s.buffers (lastIndex s.buffers))[off]? := by
      simp only [received_extendLast _ _ _ hbs, if_true]
      exact List.getElem?_append_left (by omega)
    have htouch : (s.extend x).touch (lastIndex s.buffers) off =
        (s.touch (lastIndex s.buffers) off).extend x := by
      simp only [Scan.touch, hhere]
    have hstep := scanByte_extend w off ((received s.buffers (lastIndex s.buffers))[off]?.getD NUL)
      (s.touch (lastIndex s.buffers) off) x hbs (ht.touch _ _) (by simp only [Scan.touch]; omega)
    rw [scan_succ, scan_succ, hhere, htouch]
    simp only [Scan.touch] at hstep ⊢
    rw [hstep]
    cases hb : scanByte w (lastIndex s.buffers) off
      ((received s.buffers (lastIndex s.buffers))[off]?.getD NUL)
      (s.touch (lastIndex s.buffers) off) with
    | error e =>
      simp only [Scan.touch] at hb
      simp only [hb, mapResult]
    | ok s₁ =>
      have hshape := scanByte_shape hb
      have htame := scanByte_tame hb (ht.touch _ _)
      simp only [Scan.touch] at hb hshape
      simp only [hb, mapResult]
      rw [← hshape.lastIndex]
      apply ih
      · exact hshape.ne_nil hbs
      · rwa [hshape.lastIndex]
      · rw [hshape.lastIndex, hshape.2]
        omega

lemma scan_append (w : Layout) (blk n m off : ℕ) (s : Scan) :
    scan w blk (n + m) off s =
      match scan w blk n off s with
      | .error e => .error e
      | .ok s' => scan w blk m (off + n) s' := by
  induction n generalizing off s with
  | zero => simp [scan]
  | succ n ih =>
    rw [show n + 1 + m = (n + m) + 1 by omega, scan_succ, scan_succ]
    split
    · rfl
    · rw [ih, show off + 1 + n = off + (n + 1) by omega]

/-! ## The fields saved at the end of a call -/

/-- The scan state with other values in the two fields that only the OK exit
writes and only the entry reads. -/
abbrev Scan.resave (s : Scan) (state : Sw) (n : ℕ) : Scan :=
  { s with pro := { s.pro with state := state, tmpDataLen := n } }

lemma scanByte_resave (w : Layout) (blk off : ℕ) (c : UInt8) (s : Scan) (st : Sw) (k : ℕ) :
    scanByte w blk off c (s.resave st k) =
      mapResult (Scan.resave · st k) (scanByte w blk off c s) := by
  rcases s with ⟨bs, pro, state, n⟩
  cases state with
  | typeCr =>
    simp only [scanByte, Scan.resave, scanType]
    split_ifs
    · rfl
    · cases (lookupType (memoryAt w bs pro.start) (w.addr pro.tokEnd - w.addr pro.start)).1 <;> rfl
  | headersLf =>
    by_cases hput : pro.type = .put <;> cases hd : isDigit c <;>
      simp [scanByte, Scan.resave, mapResult, hput, hd]
  | dataLenCr =>
    by_cases hc : c = LF <;>
      by_cases h0 : toSizeT (atoi (memoryAt w (terminate bs blk off) pro.start)) = 0 <;>
      simp [scanByte, Scan.resave, scanDataLen, mapResult, hc, h0]
  | dataLenLf => rfl
  | data => by_cases h0 : n = 0 <;> simp [scanByte, Scan.resave, mapResult, h0]
  | _ =>
    simp only [scanByte, Scan.resave]
    split_ifs <;> rfl

lemma scan_resave (w : Layout) (blk n off : ℕ) (s : Scan) (st : Sw) (k : ℕ) :
    scan w blk n off (s.resave st k) = mapResult (Scan.resave · st k) (scan w blk n off s) := by
  induction n generalizing off s with
  | zero => rfl
  | succ n ih =>
    have htouch : (s.resave st k).touch blk off = (s.touch blk off).resave st k := rfl
    have hrec : received (s.resave st k).buffers blk = received s.buffers blk := rfl
    rw [scan_succ, scan_succ, htouch, hrec, scanByte_resave]
    cases scanByte w blk off ((received s.buffers blk)[off]?.getD NUL) (s.touch blk off) with
    | error e => rfl
    | ok s₁ => exact ih (off + 1) s₁

/-- What a caller sees of a call: the code and the recorded fields. -/
structure Outcome where
  code : Code
  type : ReqType
  headersStart : Option Ptr
  headersEnd : Option Ptr
  dataLen : ℕ
  dataStart : Option Ptr
  dataEnd : Option Ptr
  deriving DecidableEq, Repr

def Parsed.outcome (r : Parsed) : Outcome :=
  ⟨r.code, r.pro.type, r.pro.headersStart, r.pro.headersEnd, r.pro.dataLen, r.pro.dataStart,
    r.pro.dataEnd⟩

lemma outcome_finishScan_resave (s : Scan) (st : Sw) (k : ℕ) (stop : Ptr) :
    (finishScan (s.resave st k) stop).outcome = (finishScan s stop).outcome := by
  simp only [finishScan]
  by_cases h1 : s.pro.type ≠ .unknow ∧ s.pro.type ≠ .put ∧ s.state = .headersLf
  · simp only [if_pos h1, Parsed.outcome]
  by_cases h2 : s.pro.type = .put ∧ s.state = .data ∧ s.dataLen = 0
  · simp only [if_neg h1, if_pos h2, Parsed.outcome]
  · simp only [if_neg h1, if_neg h2, Parsed.outcome]

/-! ## Two calls and one -/

/-- The states reachable from `protocol_init` by calls that returned
`PROTOCOL_OK`; before any read a further block may have been chained. -/
inductive Reached (w : Layout) : List Buffer → Protocol → Prop
  | init (size : ℕ) : Reached w [⟨size, []⟩] protocolInit
  | parse {bs pro} (chunk : List UInt8) : Reached w bs pro →
      (parseChunk w bs pro chunk).code = .ok →
      Reached w (parseChunk w bs pro chunk).buffers (parseChunk w bs pro chunk).pro
  | chain {bs pro} (size : ℕ) : Reached w bs pro → Reached w (bs ++ [⟨size, []⟩]) pro

/-- The tests for a complete request, as they stand after the loop. -/
def Complete (type : ReqType) (state : Sw) (n : ℕ) : Prop :=
  (type ≠ .unknow ∧ type ≠ .put ∧ state = .headersLf) ∨ (type = .put ∧ state = .data ∧ n = 0)

/-- What holds of the parser between two calls. -/
structure Ready (bs : List Buffer) (pro : Protocol) : Prop where
  ne_nil : bs ≠ []
  tame : Tame (lastIndex bs) (received bs (lastIndex bs)).length pro.state pro
  incomplete : ¬ Complete pro.type pro.state pro.tmpDataLen

/-- The scan state a call on `chunk` starts from. -/
def entry (bs : List Buffer) (pro : Protocol) (chunk : List UInt8) : Scan :=
  ⟨extendLast bs chunk, pro, pro.state, pro.tmpDataLen⟩

lemma parseChunk_eq (w : Layout) (bs : List Buffer) (pro : Protocol) (chunk : List UInt8) :
    parseChunk w bs pro chunk =
      match scan w (lastIndex bs) chunk.length (received bs (lastIndex bs)).length
        (entry bs pro chunk) with
      | .error e => ⟨e.1, e.2.buffers, e.2.pro⟩
      | .ok s => finishScan s ⟨lastIndex bs, (received bs (lastIndex bs)).length + chunk.length⟩ := by
  simp only [parseChunk, protocolParse, lastIndex_extendLast]
  rfl

lemma finishScan_of_not_complete {s : Scan} (h : ¬ Complete s.pro.type s.state s.dataLen)
    (stop : Ptr) : finishScan s stop =
      ⟨.ok, s.buffers, { s.pro with state := s.state, tmpDataLen := s.dataLen }⟩ := by
  unfold Complete at h
  unfold finishScan
  rw [if_neg (fun h1 => h (Or.inl h1)), if_neg (fun h2 => h (Or.inr h2))]

lemma finishScan_of_complete {s : Scan} (h : Complete s.pro.type s.state s.dataLen) (stop : Ptr) :
    (finishScan s stop).code = .done := by
  unfold finishScan
  split_ifs with h1 h2
  · rfl
  · rfl
  · exact absurd h (not_or.mpr ⟨h1, h2⟩)

lemma finishScan_ok {s : Scan} {stop : Ptr} (h : (finishScan s stop).code = .ok) :
    ¬ Complete s.pro.type s.state s.dataLen := by
  intro hc
  rw [finishScan_of_complete hc] at h
  cases h

/-- A byte behind a complete request is refused. -/
lemma scanByte_complete (w : Layout) (blk off : ℕ) (c : UInt8) {s : Scan}
    (h : Complete s.pro.type s.state s.dataLen) :
    ∃ s', scanByte w blk off c s = .error (.needlessData, s') := by
  rcases h with h | h
  · simp [scanByte, h.2.2, h.2.1]
  · simp [scanByte, h.2.1, h.2.2]

/-- No step that stops the scan returns OK or DONE. -/
lemma scanByte_error {w : Layout} {blk off : ℕ} {c : UInt8} {s : Scan} {e : Code × Scan}
    (h : scanByte w blk off c s = .error e) : e.1 ≠ .ok ∧ e.1 ≠ .done := by
  unfold scanByte at h
  cases hs : s.state with
  | typeCr =>
    simp only [hs, scanType] at h
    split_ifs at h
    · cases h
      simp
    · split at h <;> cases h
      simp
  | dataLenCr =>
    simp only [hs, scanDataLen] at h
    split_ifs at h <;> cases h <;> simp
  | dataLenLf => simp [hs] at h
  | _ =>
    simp only [hs] at h
    split_ifs at h <;> cases h <;> simp

lemma scan_error {w : Layout} {blk n off : ℕ} {s : Scan} {e : Code × Scan}
    (h : scan w blk n off s = .error e) : e.1 ≠ .ok ∧ e.1 ≠ .done := by
  induction n generalizing off s with
  | zero => cases h
  | succ n ih =>
    rw [scan_succ] at h
    split at h
    · cases h
      exact scanByte_error (by assumption)
    · exact ih h

lemma received_last_extend {bs : List Buffer} (hbs : bs ≠ []) (x : List UInt8) :
    received (extendLast bs x) (lastIndex bs) = received bs (lastIndex bs) ++ x := by
  simp [received_extendLast bs x _ hbs]

lemma received_length_of_shape {bs bs' : List Buffer} {x : List UInt8} (hbs : bs ≠ [])
    (h : SameShape (extendLast bs x) bs') :
    lastIndex bs' = lastIndex bs ∧
      (received bs' (lastIndex bs')).length = (received bs (lastIndex bs)).length + x.length := by
  have hl : lastIndex bs' = lastIndex bs := by rw [h.lastIndex, lastIndex_extendLast]
  refine ⟨hl, ?_⟩
  rw [hl, h.2, received_last_extend hbs, List.length_append]

/-- The scan of `a ++ b` is the scan of `a` followed by the scan of `b`. -/
lemma scan_entry_append (w : Layout) {bs : List Buffer} {pro : Protocol} (hr : Ready bs pro)
    (a b : List UInt8) :
    scan w (lastIndex bs) (a ++ b).length (received bs (lastIndex bs)).length
        (entry bs pro (a ++ b)) =
      match scan w (lastIndex bs) a.length (received bs (lastIndex bs)).length (entry bs pro a) with
      | .error e => .error (e.1, e.2.extend b)
      | .ok s => scan w (lastIndex bs) b.length
          ((received bs (lastIndex bs)).length + a.length) (s.extend b) := by
  have hentry : entry bs pro (a ++ b) = (entry bs pro a).extend b := by
    simp only [entry, Scan.extend, extendLast_append]
  have hne : (entry bs pro a).buffers ≠ [] := by
    simpa [entry, ← List.length_pos_iff] using hr.ne_nil
  have hlast : lastIndex (entry bs pro a).buffers = lastIndex bs := lastIndex_extendLast bs a
  have hext := scan_extend w a.length (received bs (lastIndex bs)).length (entry bs pro a) b hne
    (by rw [hlast]; exact hr.tame)
    (by rw [hlast, entry, received_last_extend hr.ne_nil, List.length_append])
  rw [hlast] at hext
  rw [hentry, List.length_append, scan_append, hext]
  cases scan w (lastIndex bs) a.length (received bs (lastIndex bs)).length (entry bs pro a) <;> rfl

/-- A first call that returns OK hands over to the second. -/
lemma parseChunk_append_ok (w : Layout) {bs : List Buffer} {pro : Protocol} (hr : Ready bs pro)
    (a b : List UInt8) (h : (parseChunk w bs pro a).code = .ok) :
    (parseChunk w bs pro (a ++ b)).outcome =
      (parseChunk w (parseChunk w bs pro a).buffers (parseChunk w bs pro a).pro b).outcome := by
  have happ := scan_entry_append w hr a b
  rw [parseChunk_eq] at h
  rw [parseChunk_eq w bs pro (a ++ b), happ, parseChunk_eq w bs pro a]
  cases hs : scan w (lastIndex bs) a.length (received bs (lastIndex bs)).length (entry bs pro a) with
  | error e =>
    simp only [hs] at h
    exact absurd h (scan_error hs).1
  | ok s =>
    simp only [hs] at h ⊢
    have heq := finishScan_of_not_complete (finishScan_ok h)
    have hshape : SameShape (extendLast bs a) s.buffers := scan_shape hs
    obtain ⟨hlast, hlen⟩ := received_length_of_shape hr.ne_nil hshape
    -- the second call starts from the state the first one saved
    have hentry : entry s.buffers { s.pro with state := s.state, tmpDataLen := s.dataLen } b =
        (s.extend b).resave s.state s.dataLen := rfl
    rw [heq, parseChunk_eq]
    simp only [hlast] at hlen ⊢
    rw [hlen, hentry, scan_resave, List.length_append, ← Nat.add_assoc]
    cases scan w (lastIndex bs) b.length ((received bs (lastIndex bs)).length + a.length)
      (s.extend b) with
    | error e => rfl
    | ok s' => exact (outcome_finishScan_resave s' s.state s.dataLen _).symm

/-- An error stands, with everything recorded before it. -/
lemma parseChunk_append_error (w : Layout) {bs : List Buffer} {pro : Protocol} (hr : Ready bs pro)
    (a b : List UInt8) (hok : (parseChunk w bs pro a).code ≠ .ok)
    (hdone : (parseChunk w bs pro a).code ≠ .done) :
    (parseChunk w bs pro (a ++ b)).outcome = (parseChunk w bs pro a).outcome := by
  have happ := scan_entry_append w hr a b
  rw [parseChunk_eq] at hok hdone
  rw [parseChunk_eq w bs pro (a ++ b), happ, parseChunk_eq w bs pro a]
  cases hs : scan w (lastIndex bs) a.length (received bs (lastIndex bs)).length (entry bs pro a) with
  | error e => rfl
  | ok s =>
    simp only [hs] at hok hdone
    by_cases hc : Complete s.pro.type s.state s.dataLen
    · exact absurd (finishScan_of_complete hc _) hdone
    · rw [finishScan_of_not_complete hc] at hok
      simp at hok

/-- A complete request admits no further byte. -/
lemma parseChunk_append_done (w : Layout) {bs : List Buffer} {pro : Protocol} (hr : Ready bs pro)
    (a b : List UInt8) (hb : b ≠ []) (h : (parseChunk w bs pro a).code = .done) :
    (parseChunk w bs pro (a ++ b)).code = .needlessData := by
  have happ := scan_entry_append w hr a b
  rw [parseChunk_eq] at h
  rw [parseChunk_eq w bs pro (a ++ b), happ]
  cases hs : scan w (lastIndex bs) a.length (received bs (lastIndex bs)).length (entry bs pro a) with
  | error e =>
    simp only [hs] at h
    exact absurd h (scan_error hs).2
  | ok s =>
    simp only [hs] at h ⊢
    obtain ⟨n, hn⟩ : ∃ n, b.length = n + 1 :=
      ⟨b.length - 1, by have := List.length_pos_iff.mpr hb; omega⟩
    have hc : Complete s.pro.type s.state s.dataLen := by
      by_contra hc
      rw [finishScan_of_not_complete hc] at h
      cases h
    obtain ⟨s', hs'⟩ := scanByte_complete w (lastIndex bs)
      ((received bs (lastIndex bs)).length + a.length)
      ((received (s.extend b).buffers (lastIndex bs))[(received bs (lastIndex bs)).length +
        a.length]?.getD NUL) (s := (s.extend b).touch (lastIndex bs)
        ((received bs (lastIndex bs)).length + a.length)) hc
    rw [hn, scan_succ, hs']

lemma ready_init (size : ℕ) : Ready [⟨size, []⟩] protocolInit where
  ne_nil := by simp
  tame := ⟨by simp [protocolInit, Sw.inToken], by simp [protocolInit]⟩
  incomplete := by simp [protocolInit, Complete]

lemma ready_parse (w : Layout) {bs : List Buffer} {pro : Protocol} (hr : Ready bs pro)
    (chunk : List UInt8) (h : (parseChunk w bs pro chunk).code = .ok) :
    Ready (parseChunk w bs pro chunk).buffers (parseChunk w bs pro chunk).pro := by
  rw [parseChunk_eq] at h ⊢
  cases hs : scan w (lastIndex bs) chunk.length (received bs (lastIndex bs)).length
      (entry bs pro chunk) with
  | error e =>
    simp only [hs] at h
    exact absurd h (scan_error hs).1
  | ok s =>
    simp only [hs] at h ⊢
    have hopen := finishScan_ok h
    have hshape : SameShape (extendLast bs chunk) s.buffers := scan_shape hs
    have htame := scan_tame hs hr.tame
    obtain ⟨hlast, hlen⟩ := received_length_of_shape hr.ne_nil hshape
    have hne : extendLast bs chunk ≠ [] := by
      simpa [← List.length_pos_iff] using hr.ne_nil
    rw [finishScan_of_not_complete hopen]
    refine ⟨hshape.ne_nil hne, ?_, hopen⟩
    show Tame (lastIndex s.buffers) (received s.buffers (lastIndex s.buffers)).length s.state _
    rw [hlen, hlast]
    exact ⟨htame.start, htame.tokEnd⟩

lemma ready_chain {bs : List Buffer} {pro : Protocol} (hr : Ready bs pro) (size : ℕ) :
    Ready (bs ++ [⟨size, []⟩]) pro := by
  refine ⟨by simp, hr.tame.mono (Or.inl ?_), hr.incomplete⟩
  have := List.length_pos_iff.mpr hr.ne_nil
  simp only [lastIndex, List.length_append, List.length_singleton]
  omega

theorem Reached.ready {w : Layout} {bs : List Buffer} {pro : Protocol} (h : Reached w bs pro) :
    Ready bs pro := by
  induction h with
  | init size => exact ready_init size
  | parse chunk _ hok ih => exact ready_parse w ih chunk hok
  | chain size _ ih => exact ready_chain ih size

/-- An empty read changes nothing. -/
lemma parseChunk_nil (w : Layout) {bs : List Buffer} {pro : Protocol} (hr : Ready bs pro) :
    parseChunk w bs pro [] = ⟨.ok, bs, pro⟩ := by
  rw [parseChunk_eq]
  simp only [List.length_nil, scan, entry, extendLast_nil]
  rw [finishScan_of_not_complete hr.incomplete]

/-- Feeding chunks of one buffer until the first result other than OK. -/
def feed (w : Layout) : List Buffer → Protocol → List (List UInt8) → Parsed
  | bs, pro, [] => ⟨.ok, bs, pro⟩
  | bs, pro, c :: cs =>
    let r := parseChunk w bs pro c
    if r.code = .ok then feed w r.buffers r.pro cs else r

/-- A proper part of the input that ends on a chunk border is already complete. -/
def CompleteAtBorder (w : Layout) (bs : List Buffer) (pro : Protocol) (cs : List (List UInt8)) :
    Prop :=
  ∃ cs₁ cs₂, cs = cs₁ ++ cs₂ ∧ cs₂.flatten ≠ [] ∧ (parseChunk w bs pro cs₁.flatten).code = .done

lemma completeAtBorder_cons_of_ok (w : Layout) {bs : List Buffer} {pro : Protocol}
    (hr : Ready bs pro) (c : List UInt8) (cs : List (List UInt8))
    (h : (parseChunk w bs pro c).code = .ok) :
    CompleteAtBorder w bs pro (c :: cs) ↔
      CompleteAtBorder w (parseChunk w bs pro c).buffers (parseChunk w bs pro c).pro cs := by
  have hcode (x : List UInt8) : (parseChunk w bs pro (c ++ x)).code =
      (parseChunk w (parseChunk w bs pro c).buffers (parseChunk w bs pro c).pro x).code :=
    congrArg Outcome.code (parseChunk_append_ok w hr c x h)
  constructor
  · rintro ⟨cs₁, cs₂, heq, hne, hdone⟩
    cases cs₁ with
    | nil => simp [parseChunk_nil w hr] at hdone
    | cons c' cs₁ =>
      obtain ⟨rfl, rfl⟩ := List.cons.inj heq
      exact ⟨cs₁, cs₂, rfl, hne, by rw [← hcode]; simpa using hdone⟩
  · rintro ⟨cs₁, cs₂, rfl, hne, hdone⟩
    exact ⟨c :: cs₁, cs₂, rfl, hne, by rw [List.flatten_cons, hcode]; exact hdone⟩

/-- Chunked feeding gives the one-call result, except exactly when a proper part
of the input that ends on a chunk border is already a complete request. -/
lemma feed_outcome_iff (w : Layout) {bs : List Buffer} {pro : Protocol} (hr : Ready bs pro)
    (cs : List (List UInt8)) :
    (feed w bs pro cs).outcome = (parseChunk w bs pro cs.flatten).outcome ↔
      ¬ CompleteAtBorder w bs pro cs := by
  induction cs generalizing bs pro with
  | nil =>
    refine iff_of_true (by simp [feed, parseChunk_nil w hr]) ?_
    rintro ⟨cs₁, cs₂, heq, hne, -⟩
    obtain ⟨-, rfl⟩ := List.append_eq_nil_iff.mp heq.symm
    simp at hne
  | cons c cs ih =>
    rw [feed, List.flatten_cons]
    by_cases hok : (parseChunk w bs pro c).code = .ok
    · rw [if_pos hok, completeAtBorder_cons_of_ok w hr c cs hok,
        parseChunk_append_ok w hr c cs.flatten hok]
      exact ih (ready_parse w hr c hok)
    rw [if_neg hok]
    by_cases hdone : (parseChunk w bs pro c).code = .done
    · by_cases hflat : cs.flatten = []
      · refine iff_of_true (by rw [hflat, List.append_nil]) ?_
        rintro ⟨cs₁, cs₂, heq, hne, hd⟩
        cases cs₁ with
        | nil => simp [parseChunk_nil w hr] at hd
        | cons c' cs₁ =>
          rw [List.cons_append] at heq
          obtain ⟨-, rfl⟩ := List.cons.inj heq
          rw [List.flatten_append, List.append_eq_nil_iff] at hflat
          exact hne hflat.2
      · refine iff_of_false (fun h => ?_) (fun h => h ⟨[c], cs, rfl, hflat, by simpa using hdone⟩)
        have hcode := congrArg Outcome.code h
        change (parseChunk w bs pro c).code = (parseChunk w bs pro (c ++ cs.flatten)).code at hcode
        rw [hdone, parseChunk_append_done w hr c _ hflat hdone] at hcode
        cases hcode
    · have herr := parseChunk_append_error w hr c
      refine iff_of_true (herr _ hok hdone).symm ?_
      rintro ⟨cs₁, cs₂, heq, -, hd⟩
      cases cs₁ with
      | nil => simp [parseChunk_nil w hr] at hd
      | cons c' cs₁ =>
        obtain ⟨rfl, -⟩ := List.cons.inj heq
        rw [List.flatten_cons] at hd
        have hcode := congrArg Outcome.code (herr cs₁.flatten hok hdone)
        change (parseChunk w bs pro (c ++ cs₁.flatten)).code = (parseChunk w bs pro c).code at hcode
        exact hdone (hcode ▸ hd)

/-- **Segmentation law.** From every state that OK calls can reach: a call on
`a ++ b` records what a call on `a` and then one on `b` record, unless the first
is in error, which stands, or complete, which makes `b` needless. So feeding any
chunks gives the one-call result, except exactly when a proper part that ends on
a chunk border is already a complete request. -/
theorem protocolParse_segmentation (w : Layout) (bs : List Buffer) (pro : Protocol)
    (h : Reached w bs pro) :
    (∀ a b : List UInt8, b ≠ [] →
      ((parseChunk w bs pro a).code = .ok →
        (parseChunk w bs pro (a ++ b)).outcome =
          (parseChunk w (parseChunk w bs pro a).buffers (parseChunk w bs pro a).pro b).outcome) ∧
      ((parseChunk w bs pro a).code ≠ .ok → (parseChunk w bs pro a).code ≠ .done →
        (parseChunk w bs pro (a ++ b)).code = (parseChunk w bs pro a).code) ∧
      ((parseChunk w bs pro a).code = .done →
        (parseChunk w bs pro (a ++ b)).code = .needlessData)) ∧
    ∀ cs : List (List UInt8),
      ((feed w bs pro cs).outcome = (parseChunk w bs pro cs.flatten).outcome ↔
        ¬ CompleteAtBorder w bs pro cs) := by
  have hr := h.ready
  refine ⟨fun a b hb => ⟨parseChunk_append_ok w hr a b, fun hok hdone => ?_,
    parseChunk_append_done w hr a b hb⟩, feed_outcome_iff w hr⟩
  exact congrArg Outcome.code (parseChunk_append_error w hr a b hok hdone)

/-- `GE` and then `T CR LF CR LF`, against the whole request at once. -/
theorem protocolParse_segmentation_get :
    (parseChunk .spaced [⟨1024, []⟩] protocolInit [71, 69]).code = .ok ∧
      (parseChunk .spaced [⟨1024, []⟩] protocolInit [71, 69, 84, 13, 10, 13, 10]).outcome =
        (parseChunk .spaced (parseChunk .spaced [⟨1024, []⟩] protocolInit [71, 69]).buffers
          (parseChunk .spaced [⟨1024, []⟩] protocolInit [71, 69]).pro
          [84, 13, 10, 13, 10]).outcome :=
  have hok : (parseChunk .spaced [⟨1024, []⟩] protocolInit [71, 69]).code = .ok := by decide
  ⟨hok, ((protocolParse_segmentation .spaced [⟨1024, []⟩] protocolInit (.init 1024)).1
    [71, 69] [84, 13, 10, 13, 10] (by decide)).1 hok⟩

end Xpipe
