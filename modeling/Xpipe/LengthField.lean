import Xpipe.CutTokens

/-!
# The length field of a `PUT`

The numeral goes through a saturated `long` and an `int` into a `size_t`, and is
refused when it comes out as zero. A border between two blocks may cut the type,
which is then not found, or the numeral, which is then converted from what memory
shows. `length_honoured_iff` says for which requests the parser refuses the
request at the end of the length line, or waits for as many bytes as the numeral
says.
-/
namespace Xpipe
open Machines

/-- The bytes of a `PUT` up to and including the CR of its length line. -/
def numeralLine (B H N : List UInt8) : List UInt8 := headLines B .put H ++ N ++ [CR]

/-- The bytes of a `PUT` up to and including the LF of its length line. -/
def lengthLine (B H N : List UInt8) : List UInt8 := headLines B .put H ++ N ++ crlf

lemma lengthLine_append (B H N D : List UInt8) :
    lengthLine B H N ++ D = numeralLine B H N ++ LF :: D := by simp [lengthLine, numeralLine, crlf]

/-- The reads are refused at the LF of the length line. -/
structure LengthRefused (w : Layout) (first : ℕ) (B H N : List UInt8) : Prop where
  before : ∀ chunks, Fits first chunks → chunks.flatten = numeralLine B H N →
    (recvAll w [⟨first, []⟩] protocolInit chunks).parsed.code = .ok
  refused : ∀ D chunks, Fits first chunks → chunks.flatten = lengthLine B H N ++ D →
    (recvAll w [⟨first, []⟩] protocolInit chunks).parsed.code = .dataLenInvalid

/-- The reads go on behind the length line with the value of the numeral, and end
with DONE exactly when that many bytes of the body have come. -/
def LengthTaken (w : Layout) (first : ℕ) (B H N : List UInt8) : Prop :=
  ∀ D chunks, Fits first chunks → chunks.flatten = lengthLine B H N ++ D →
    D.length ≤ decimal N →
      (recvAll w [⟨first, []⟩] protocolInit chunks).unread = [] ∧
      (recvAll w [⟨first, []⟩] protocolInit chunks).parsed.pro.dataLen = decimal N ∧
      (recvAll w [⟨first, []⟩] protocolInit chunks).parsed.code =
        if D.length = decimal N then .done else .ok

/-! ## Where the length line lies -/

/-- The number of the block that byte `i` of a request lies in. -/
def blockAt (first i : ℕ) : ℕ := if i < first then 0 else (i - first) / bufferMinSize + 1

/-- The digits that memory shows from the first byte of the numeral on: those in front of
the border behind it, and where these are not followed by a CR, those behind the block. -/
def shownNumeral (w : Layout) (first : ℕ) (B H N : List UInt8) : List UInt8 :=
  let start := (headLines B .put H).length
  let k := blockAt first start
  ((N ++ [CR]).take (first + bufferMinSize * k - start) ++ w.beyond k).takeWhile isDigit

/-- A border cuts the type of a `PUT`. -/
def TypeCut (first : ℕ) (B : List UInt8) : Prop :=
  BorderIn first B.length (B.length + ReqType.put.name.length)

/-- A border cuts the numeral of a `PUT`: it lies between two digits, or in front of the CR. -/
def NumeralCut (first : ℕ) (B H N : List UInt8) : Prop :=
  BorderIn first (headLines B .put H).length ((headLines B .put H).length + N.length)

/-- The border behind a byte is the first one behind it. -/
lemma blockAt_spec (first i : ℕ) :
    i < first + bufferMinSize * blockAt first i ∧
      ∀ j, i < first + bufferMinSize * j → blockAt first i ≤ j := by
  unfold blockAt bufferMinSize
  split_ifs with h
  · exact ⟨by omega, fun j _ => Nat.zero_le j⟩
  · exact ⟨by omega, fun j hj => by omega⟩

lemma borderIn_iff_blockAt {first lo hi : ℕ} :
    BorderIn first lo hi ↔ first + bufferMinSize * blockAt first lo ≤ hi := by
  obtain ⟨hlt, hleast⟩ := blockAt_spec first lo
  constructor
  · rintro ⟨j, hlo, hhi⟩
    have hle := Nat.mul_le_mul_left bufferMinSize (hleast j hlo)
    omega
  · exact fun h => ⟨_, hlt, h⟩

section

variable {B H N : List UInt8} (hB : All isBlank B) (hH : All isHeaderByte H)

include hB hH

/-- The ranks of the phases on the way through a `PUT`. -/
lemma rank_line (hne : N ≠ []) (hN : All isDigit N) {rest : List UInt8} {i : ℕ} {ph : Phase}
    (h : run advance .start ((numeralLine B H N ++ rest).take i) = .ok ph) :
    (i ≤ B.length → ph.rank ≤ 0) ∧ (B.length + 4 ≤ i → 2 ≤ ph.rank) ∧
      (i ≤ (headLines B .put H).length → ph.rank ≤ 6) ∧
      ((headLines B .put H).length + N.length + 1 < i → i ≤ (numeralLine B H N ++ rest).length →
        9 ≤ ph.rank) := by
  have hblanks : Spells .start B := hB
  have hcr : Spells (.typeCr ReqType.put.name) (B ++ ReqType.put.name ++ [CR]) :=
    ⟨B, hB, by decide, by decide, rfl⟩
  have hhead : Spells (.headersLf .put) (headLines B .put H) := ⟨B, H, hB, by decide, hH, rfl⟩
  have hnumeral : Spells (.dataLenCr N) (numeralLine B H N) := ⟨B, H, hB, hH, hne, hN, rfl⟩
  have hsplit₁ : numeralLine B H N ++ rest =
      B ++ (ReqType.put.name ++ crlf ++ H ++ crlf ++ N ++ [CR] ++ rest) := by
    simp [numeralLine, headLines, typeLine]
  have hsplit₂ : numeralLine B H N ++ rest =
      (B ++ ReqType.put.name ++ [CR]) ++ (LF :: (H ++ crlf ++ N ++ [CR] ++ rest)) := by
    simp [numeralLine, headLines, typeLine, crlf]
  have hsplit₃ : numeralLine B H N ++ rest = headLines B .put H ++ (N ++ [CR] ++ rest) := by
    simp [numeralLine]
  refine ⟨?_, ?_, ?_, ?_⟩
  · exact (rank_take (spells_run hblanks) (hsplit₁ ▸ h)).1
  · intro hi
    refine (rank_take (spells_run hcr) (hsplit₂ ▸ h)).2 ?_
    simp only [List.length_append, ReqType.name, List.length_cons, List.length_nil]
    omega
  · exact (rank_take (spells_run hhead) (hsplit₃ ▸ h)).1
  · intro hi hle
    obtain ⟨k, hk⟩ := Nat.exists_eq_add_of_lt hi
    have hlen : i = (numeralLine B H N).length + (k + 1) := by
      simp only [numeralLine, List.length_append, List.length_singleton]
      omega
    rw [hlen, List.take_length_add_append, run_append_of_ok (spells_run hnumeral)] at h
    cases rest with
    | nil =>
      rw [List.append_nil] at hle
      omega
    | cons c rest => exact WireRequest.rank_after_numeral h

/-- The points of a length line at which the parser is inside a token. -/
lemma held_line (hne : N ≠ []) (hN : All isDigit N) {rest : List UInt8} {i : ℕ} {ph : Phase}
    (h : run advance .start ((numeralLine B H N ++ rest).take i) = .ok ph)
    (hi : i ≤ (numeralLine B H N ++ rest).length) (hheld : ph.held = true) :
    (B.length < i ∧ i ≤ B.length + 3) ∨
      ((headLines B .put H).length < i ∧ i ≤ (headLines B .put H).length + N.length + 1) := by
  obtain ⟨hfirst, htype, hhead, hlast⟩ := rank_line hB hH hne hN h
  rw [held_iff_rank] at hheld
  omega

/-- No border in front of byte `m` cuts a line whose type is whole, if the border behind
the first byte of the numeral comes later or lies behind the line. -/
lemma uncut_line {first : ℕ} (htype : ¬ TypeCut first B) (hne : N ≠ []) (hN : All isDigit N)
    (rest : List UInt8) {m : ℕ}
    (hm : m < first + bufferMinSize * blockAt first (headLines B .put H).length ∨
      (headLines B .put H).length + N.length + 1 <
        first + bufferMinSize * blockAt first (headLines B .put H).length) :
    Uncut first 0 .start ((numeralLine B H N ++ rest).take m) := by
  intro j n hj hpos hlen ph hrun
  rw [List.length_take] at hlen
  rw [List.take_take, min_eq_left (by omega)] at hrun
  rw [← Bool.not_eq_true]
  intro hheld
  rcases held_line hB hH hne hN hrun (by omega) hheld with hin | hin
  · exact htype ⟨j, by omega, by simp only [ReqType.name, List.length_cons, List.length_nil]; omega⟩
  · have hle := Nat.mul_le_mul_left bufferMinSize
      ((blockAt_spec first (headLines B .put H).length).2 j (by omega))
    omega

/-- A numeral that a border cuts after `i` of the bytes that end with its CR. -/
lemma run_cut_numeral (hne : N ≠ []) (hN : All isDigit N) {i : ℕ} (hpos : 0 < i)
    (hle : i ≤ N.length + 1) :
    ∃ ph, run advance .start (headLines B .put H ++ (N ++ [CR]).take i) = .ok ph ∧
      ph.held = true ∧ ph.inFront = (N ++ [CR]).take i ∧
      ∀ v, run (AfterCut.advance v) ph.afterCut ((N ++ [CR]).drop i) = .ok .dataLenCr := by
  rcases Nat.lt_or_ge N.length i with hlt | hge
  · obtain rfl : i = (N ++ [CR]).length := by
      rw [List.length_append, List.length_singleton]
      omega
    rw [List.take_length, List.drop_length]
    refine ⟨.dataLenCr N, spells_run ⟨B, H, hB, hH, hne, hN, ?_⟩, rfl, rfl, fun v => rfl⟩
    rw [List.append_assoc]
  · rw [List.take_append_of_le_length hge, List.drop_append_of_le_length hge]
    refine ⟨.dataLen (N.take i), spells_run ⟨B, H, hB, hH, ?_, ?_, rfl⟩, rfl, rfl, fun v => ?_⟩
    · rw [← List.length_pos_iff, List.length_take]
      have := List.length_pos_iff.mpr hne
      omega
    · exact fun c hc => hN c (List.mem_of_mem_take hc)
    · exact AfterCut.run_numeral (fun c hc => hN c (List.mem_of_mem_drop hc))

end

/-! ## The value of the numeral in memory -/

section

variable {w : Layout} {first : ℕ} {B H N : List UInt8}

/-- The conversion stops at the first byte that is no digit. -/
lemma atoi_shown {text : List UInt8} {c : UInt8} (hc : isDigit c = true) :
    atoi (c :: text) = atoi ((c :: text).takeWhile isDigit) := by
  have hall : All isDigit ((c :: text).takeWhile isDigit) := fun d hd => List.mem_takeWhile_imp hd
  obtain ⟨hspace, hminus, hplus, hnul⟩ := isDigit_not_space hc
  have hcstring : cString (c :: text) = c :: cString text := by simp [cString, hnul]
  have hdigits : (cString (c :: text)).takeWhile isDigit = (c :: text).takeWhile isDigit := by
    rw [cString, List.takeWhile_takeWhile]
    congr 1
    funext d
    by_cases hd : isDigit d = true
    · simp [hd, (isDigit_not_space hd).2.2.2]
    · simp [hd]
  have hparts : splitSign ((cString (c :: text)).dropWhile isSpace) =
      (false, cString (c :: text)) := by
    simp [hcstring, hspace, splitSign, hminus, hplus]
  have hvalue : strtol (cString (c :: text)) =
      min (decimal ((c :: text).takeWhile isDigit) : ℤ) (2 ^ 63 - 1) := by
    simp only [strtol, hparts, hdigits]
    rfl
  rw [atoi, hvalue, atoi, cString_self hall, strtol_digits hall]

/-- The value that the conversion finds is that of the numeral in memory. -/
lemma lengthOf_shown (hne : N ≠ []) (hN : All isDigit N) :
    lengthOf (shownNumeral w first B H N) =
      cutValue w (blockAt first (headLines B .put H).length) ((N ++ [CR]).take
        (first + bufferMinSize * blockAt first (headLines B .put H).length -
          (headLines B .put H).length)) := by
  obtain ⟨hlt, -⟩ := blockAt_spec first (headLines B .put H).length
  obtain ⟨c, N', rfl⟩ := List.exists_cons_of_ne_nil hne
  obtain ⟨i, hi⟩ := Nat.exists_eq_add_of_lt hlt
  have htake : first + bufferMinSize * blockAt first (headLines B .put H).length -
      (headLines B .put H).length = i + 1 := by omega
  rw [lengthOf, cutValue, shownNumeral, htake, List.cons_append, List.take_succ_cons,
    List.cons_append, atoi_shown (hN c (by simp))]

/-- Memory shows a numeral that no border cuts as it is. -/
lemma shownNumeral_uncut (hN : All isDigit N) (hcut : ¬ NumeralCut first B H N) :
    shownNumeral w first B H N = N := by
  rw [NumeralCut, borderIn_iff_blockAt] at hcut
  have htake : (N ++ [CR]).take (first + bufferMinSize * blockAt first (headLines B .put H).length -
      (headLines B .put H).length) = N ++ [CR] := by
    apply List.take_of_length_le
    rw [List.length_append, List.length_singleton]
    omega
  have hcr : isDigit CR = false := by decide
  simp only [shownNumeral, htake, List.append_assoc, takeWhile_digits hN, List.singleton_append,
    List.takeWhile_cons, hcr, Bool.false_eq_true, if_false, List.append_nil]

end

/-! ## The reads behind the numeral -/

/-- The phase of the request language for a point behind the CR of an uncut numeral. -/
def AfterCut.phase (N : List UInt8) : AfterCut → Phase
  | .dataLenLf => .dataLenLf (lengthOf N)
  | .data k => .data (lengthOf N) k
  | _ => .dataLenCr N

/-- The points behind the numeral. -/
def AfterCut.Behind (l : AfterCut) : Prop := l ≠ .type ∧ l ≠ .typeCr ∧ l ≠ .dataLen

/-- Behind the numeral nothing is lost: the request language goes the same way. -/
lemma AfterCut.run_phase {N : List UInt8} {l : AfterCut} (s : List UInt8) (hl : l.Behind) :
    (∀ e, run (advance (lengthOf N)) l s = .error e →
      run Xpipe.advance (l.phase N) s = .error e) ∧
    ∀ l', run (advance (lengthOf N)) l s = .ok l' →
      run Xpipe.advance (l.phase N) s = .ok (l'.phase N) ∧ l'.Behind := by
  induction s generalizing l with
  | nil =>
    refine ⟨fun e h => ?_, fun l' h => ?_⟩
    · cases h
    · cases h
      exact ⟨rfl, hl⟩
  | cons c s ih =>
    have hstep : (∀ e, l.advance (lengthOf N) c = .error e →
        Xpipe.advance (l.phase N) c = .error e) ∧
        ∀ l', l.advance (lengthOf N) c = .ok l' →
          Xpipe.advance (l.phase N) c = .ok (l'.phase N) ∧ l'.Behind := by
      cases l with
      | type => exact absurd rfl hl.1
      | typeCr => exact absurd rfl hl.2.1
      | dataLen => exact absurd rfl hl.2.2
      | dataLenCr =>
        simp only [advance, Xpipe.advance, phase]
        split_ifs <;> simp [Behind]
      | dataLenLf => simp [advance, Xpipe.advance, phase, Behind]
      | data k =>
        simp only [advance, Xpipe.advance, phase]
        split_ifs <;> simp [Behind]
    cases hc : l.advance (lengthOf N) c with
    | error e =>
      rw [run_cons_error hc, run_cons_error (hstep.1 e hc)]
      refine ⟨fun e' h => ?_, fun l' h => ?_⟩
      · cases h
        rfl
      · cases h
    | ok l₁ =>
      obtain ⟨hgo, hbehind⟩ := hstep.2 l₁ hc
      rw [run_cons_ok hc, run_cons_ok hgo]
      exact ih hbehind

/-- The phase behind the numeral knows its length and whether the request is complete. -/
lemma AfterCut.phase_length {N : List UInt8} {l : AfterCut} (hl : l.Behind) :
    (l.phase N).length = l.length (lengthOf N) ∧
      (l.phase N).completeType = if l = .data 0 then some .put else none := by
  cases l with
  | type => exact absurd rfl hl.1
  | typeCr => exact absurd rfl hl.2.1
  | dataLen => exact absurd rfl hl.2.2
  | data k => cases k <;> simp [phase, Phase.length, length, Phase.completeType]
  | _ => simp [phase, Phase.length, length, Phase.completeType]

/-- Reads of a `PUT` of which no border cuts the type, or the bytes up to the CR behind the
numeral, go on from that CR as the request language does. -/
lemma recvAll_wholeLine {w : Layout} {first : ℕ} {B H N rest : List UInt8}
    {chunks : List (List UInt8)} (hB : All isBlank B) (hH : All isHeaderByte H) (hne : N ≠ [])
    (hN : All isDigit N) (htype : ¬ TypeCut first B) (hfits : Fits first chunks)
    (hflat : chunks.flatten = numeralLine B H N ++ rest)
    (hwhole : (numeralLine B H N).length <
      first + bufferMinSize * blockAt first (headLines B .put H).length) :
    (∀ e, run (AfterCut.advance (lengthOf N)) .dataLenCr rest = .error e → e ≠ .needlessData →
      (recvAll w [⟨first, []⟩] protocolInit chunks).parsed.code = e) ∧
    ∀ l, run (AfterCut.advance (lengthOf N)) .dataLenCr rest = .ok l →
      (recvAll w [⟨first, []⟩] protocolInit chunks).unread = [] ∧
      (recvAll w [⟨first, []⟩] protocolInit chunks).parsed.pro.dataLen = l.length (lengthOf N) ∧
      (recvAll w [⟨first, []⟩] protocolInit chunks).parsed.code =
        if l = .data 0 then .done else .ok := by
  simp only [numeralLine, List.length_append, List.length_singleton] at hwhole
  have huncut := uncut_line hB hH htype hne hN rest (m := chunks.flatten.length) (Or.inr hwhole)
  rw [hflat, List.take_length, ← hflat] at huncut
  obtain ⟨hbad, hgo⟩ := @recvAll_follows w first 0 _ _ _ chunks (laid_init first)
    (follows_init first) rfl (by rwa [roomLeft_init]) huncut
  have hnumeral : run advance .start (numeralLine B H N) = .ok (AfterCut.phase N .dataLenCr) :=
    spells_run ⟨B, H, hB, hH, hne, hN, rfl⟩
  obtain ⟨hbad', hgo'⟩ := @AfterCut.run_phase N .dataLenCr rest (by simp [AfterCut.Behind])
  rw [hflat, run_append_of_ok hnumeral] at hbad hgo
  refine ⟨fun e he hne => hbad e (hbad' e he) hne, fun l hl => ?_⟩
  obtain ⟨hrun, hbehind⟩ := hgo' l hl
  obtain ⟨hlength, hcomplete⟩ := AfterCut.phase_length hbehind
  by_cases hend : l = .data 0
  · rw [if_pos hend] at hcomplete ⊢
    obtain ⟨hunread, hcode, -, hdata, -⟩ := (hgo _ hrun).2 .put hcomplete
    exact ⟨hunread, hdata.trans hlength, hcode⟩
  · rw [if_neg hend] at hcomplete ⊢
    obtain ⟨hunread, hcode, hdata⟩ := (hgo _ hrun).1 hcomplete
    exact ⟨hunread, hdata.trans hlength, hcode⟩

section

variable {w : Layout} {first : ℕ} {B H N : List UInt8} (hw : w.Apart (blockSize first))
  (hB : All isBlank B) (hH : All isHeaderByte H) (hne : N ≠ []) (hN : All isDigit N)

include hw hB hH hne hN

/-- **Reads of a `PUT` whose type is whole**, from the CR of its length line on: they go
by the numeral that memory shows. -/
theorem recvAll_line (htype : ¬ TypeCut first B) {rest : List UInt8} {chunks : List (List UInt8)}
    (hfits : Fits first chunks) (hflat : chunks.flatten = numeralLine B H N ++ rest) :
    (∀ e, run (AfterCut.advance (lengthOf (shownNumeral w first B H N))) .dataLenCr rest =
        .error e → e ≠ .needlessData →
      (recvAll w [⟨first, []⟩] protocolInit chunks).parsed.code = e) ∧
    ∀ l, run (AfterCut.advance (lengthOf (shownNumeral w first B H N))) .dataLenCr rest = .ok l →
      (recvAll w [⟨first, []⟩] protocolInit chunks).unread = [] ∧
      (recvAll w [⟨first, []⟩] protocolInit chunks).parsed.pro.dataLen =
        l.length (lengthOf (shownNumeral w first B H N)) ∧
      (recvAll w [⟨first, []⟩] protocolInit chunks).parsed.code =
        if l = .data 0 then .done else .ok := by
  let start := (headLines B .put H).length
  let border := first + bufferMinSize * blockAt first start
  obtain ⟨hlt, -⟩ := blockAt_spec first start
  have hlen : (numeralLine B H N).length = start + N.length + 1 := by
    simp only [start, numeralLine, List.length_append, List.length_singleton]
  have hsplit : numeralLine B H N ++ rest = headLines B .put H ++ ((N ++ [CR]) ++ rest) := by
    simp [numeralLine]
  by_cases hin : border ≤ start + N.length + 1
  · -- the border cuts the numeral, or lies between its CR and the LF
    have hfront : (N ++ [CR]).length = N.length + 1 := by simp
    obtain ⟨ph, hrun, hheld, htext, hrest⟩ :=
      run_cut_numeral hB hH hne hN (i := border - start) (by omega) (by omega)
    have htake : chunks.flatten.take border =
        headLines B .put H ++ (N ++ [CR]).take (border - start) := by
      rw [hflat, hsplit, List.take_append, List.take_of_length_le (by omega),
        List.take_append_of_le_length (by omega)]
    have hdrop : chunks.flatten.drop border = (N ++ [CR]).drop (border - start) ++ rest := by
      rw [hflat, hsplit, List.drop_append, List.drop_of_length_le (by omega), List.nil_append,
        List.drop_append_of_le_length (by omega)]
    have hreads := recvAll_cut hw hfits rfl (show 0 < border by omega)
      (by rw [hflat, List.length_append]; omega) (htake ▸ hrun) hheld
      (hflat ▸ uncut_line hB hH htype hne hN rest (Or.inl (show border - 1 < border by omega)))
    rw [htext, hdrop, run_append_of_ok (hrest _)] at hreads
    rw [lengthOf_shown hne hN]
    exact hreads
  · have hsame : shownNumeral w first B H N = N := by
      apply shownNumeral_uncut hN
      rw [NumeralCut, borderIn_iff_blockAt]
      show ¬ border ≤ start + N.length
      omega
    rw [hsame]
    exact recvAll_wholeLine hB hH hne hN htype hfits hflat
      (show (numeralLine B H N).length < border by omega)

/-- A `PUT` whose type a border cuts is refused at the LF of its type line. -/
theorem recvAll_typeCut (hcut : TypeCut first B) {D : List UInt8} {chunks : List (List UInt8)}
    (hfits : Fits first chunks) (hflat : chunks.flatten = lengthLine B H N ++ D) :
    (recvAll w [⟨first, []⟩] protocolInit chunks).parsed.code = .typeNotFound := by
  obtain ⟨j, hlo, hhi⟩ := hcut
  let border := first + bufferMinSize * j
  have hname : ReqType.put.name.length = 3 := rfl
  have hsplit : lengthLine B H N ++ D =
      B ++ (ReqType.put.name ++ (crlf ++ (H ++ crlf ++ N ++ crlf ++ D))) := by
    simp [lengthLine, headLines, typeLine]
  have htake : chunks.flatten.take border = B ++ ReqType.put.name.take (border - B.length) := by
    rw [hflat, hsplit, List.take_append, List.take_of_length_le (by omega),
      List.take_append_of_le_length (by omega)]
  have hdrop : chunks.flatten.drop border =
      ReqType.put.name.drop (border - B.length) ++ crlf ++ (H ++ crlf ++ N ++ crlf ++ D) := by
    rw [hflat, hsplit, List.drop_append, List.drop_of_length_le (by omega), List.nil_append,
      List.drop_append_of_le_length (by omega)]
    simp only [List.append_assoc]
  have hupper : All isUpper ReqType.put.name := by decide
  have hrun : run advance .start (B ++ ReqType.put.name.take (border - B.length)) =
      .ok (.type (ReqType.put.name.take (border - B.length))) := by
    refine spells_run ⟨B, hB, ?_, fun c hc => hupper c (List.mem_of_mem_take hc), rfl⟩
    rw [← List.length_pos_iff, List.length_take]
    omega
  have hfree : Uncut first 0 .start (chunks.flatten.take (border - 1)) := by
    intro i n hi hpos hlen ph hph
    rw [List.length_take] at hlen
    rw [List.take_take, min_eq_left (by omega), hflat, lengthLine_append] at hph
    rw [hflat, lengthLine_append] at hlen
    rw [← Bool.not_eq_true]
    intro hheld
    have hfar : bufferMinSize * (i + 1) ≤ bufferMinSize * j := by
      apply Nat.mul_le_mul_left
      by_contra hge
      have hmono := Nat.mul_le_mul_left bufferMinSize (show j ≤ i by omega)
      omega
    have hstart : B.length ≤ (headLines B .put H).length := by
      simp only [headLines, typeLine, List.length_append]
      omega
    unfold bufferMinSize at *
    rcases held_line hB hH hne hN hph (by omega) hheld with hin | hin <;> omega
  have hreads := (recvAll_cut hw hfits rfl (show 0 < border by omega)
    (by rw [hflat, hsplit, List.length_append, List.length_append]; omega) (htake ▸ hrun) rfl
    hfree).1
  rw [hdrop] at hreads
  refine hreads .typeNotFound (AfterCut.run_type ?_ _) (by decide)
  exact fun c hc => hupper c (List.mem_of_mem_drop hc)

end

/-! ## The numerals that are honoured -/

/-- A numeral is refused exactly when it is a multiple of `2 ^ 32` that a `long` holds. -/
lemma lengthOf_eq_zero_iff {N : List UInt8} (hN : All isDigit N) :
    lengthOf N = 0 ↔ decimal N < 2 ^ 63 ∧ 2 ^ 32 ∣ decimal N := by
  rw [lengthOf_digits hN]
  unfold toSizeT toInt32
  rw [Int.bmod_def]
  split_ifs <;> omega

/-- Reads of one byte each fit into any blocks. -/
lemma fits_singletons {room : ℕ} (hroom : 0 < room) (s : List UInt8) :
    Fits room (s.map (fun c => [c])) := by
  induction s generalizing room with
  | nil => trivial
  | cons c s ih =>
    refine ⟨by simp, hroom, ih ?_⟩
    simp only [List.length_singleton]
    split_ifs
    · decide
    · omega

lemma flatten_singletons (s : List UInt8) : (s.map (fun c => [c])).flatten = s := by
  induction s with
  | nil => rfl
  | cons c s ih => simp [ih]

section

variable {w : Layout} {first : ℕ} {B H N : List UInt8} (hw : w.Apart (blockSize first))
  (hB : All isBlank B) (hH : All isHeaderByte H) (hne : N ≠ []) (hN : All isDigit N)

include hw hB hH hne hN

/-- What the parser does with a length field is what the numeral says exactly when the
numeral in memory has its value, or the value zero. -/
lemma honoured_iff_shown (hfirst : 0 < first) (htype : ¬ TypeCut first B) :
    LengthRefused w first B H N ∨ LengthTaken w first B H N ↔
      lengthOf (shownNumeral w first B H N) = 0 ∨
        lengthOf (shownNumeral w first B H N) = decimal N := by
  have hline (rest : List UInt8) (chunks : List (List UInt8)) (hfits : Fits first chunks)
      (hflat : chunks.flatten = numeralLine B H N ++ rest) :=
    recvAll_line hw hB hH hne hN htype hfits hflat
  have hbytes (D : List UInt8) := fits_singletons hfirst (lengthLine B H N ++ D)
  have hflat (D : List UInt8) := flatten_singletons (lengthLine B H N ++ D)
  generalize hv : lengthOf (shownNumeral w first B H N) = v at hline ⊢
  constructor
  · by_cases hzero : v = 0
    · exact fun _ => Or.inl hzero
    obtain ⟨-, hlen, hcode⟩ := (hline [LF] _ (hbytes [])
      (by rw [hflat, lengthLine_append])).2 .dataLenLf (AfterCut.run_line [] (Nat.zero_le v) hzero)
    rintro (hrefused | htaken)
    · have hbad := hrefused.refused [] _ (hbytes []) (hflat [])
      rw [hcode] at hbad
      cases hbad
    · have hgood := htaken [] _ (hbytes []) (hflat []) (Nat.zero_le _)
      exact Or.inr (hlen.symm.trans hgood.2.1)
  · intro h
    by_cases hzero : v = 0
    · refine Or.inl ⟨fun chunks hfits hsame => ?_, fun D chunks hfits hsame => ?_⟩
      · exact ((hline [] chunks hfits (by rw [hsame, List.append_nil])).2 .dataLenCr rfl).2.2
      · rw [lengthLine_append] at hsame
        exact (hline _ chunks hfits hsame).1 .dataLenInvalid
          (run_cons_error (by simp [AfterCut.advance, hzero]) D) (by decide)
    · have hkeep := h.resolve_left hzero
      refine Or.inr (fun D chunks hfits hsame hle => ?_)
      rw [← hkeep] at hle ⊢
      rw [lengthLine_append] at hsame
      obtain ⟨hunread, hlen, hcode⟩ :=
        (hline _ chunks hfits hsame).2 _ (AfterCut.run_line D hle hzero)
      refine ⟨hunread, ?_, ?_⟩
      · rw [hlen]
        split_ifs <;> rfl
      · rw [hcode]
        by_cases hD : D = []
        · subst hD
          simp [Ne.symm hzero]
        · simp only [if_neg hD, AfterCut.data.injEq]
          congr 1
          rw [eq_iff_iff]
          omega

/-- A `PUT` whose type a border cuts meets neither. -/
lemma not_honoured_of_typeCut (hfirst : 0 < first) (hcut : TypeCut first B) :
    ¬ (LengthRefused w first B H N ∨ LengthTaken w first B H N) := by
  have hflat := flatten_singletons (lengthLine B H N ++ [])
  have hbytes := fits_singletons hfirst (lengthLine B H N ++ [])
  have hcode := recvAll_typeCut hw hB hH hne hN hcut hbytes hflat
  rintro (hrefused | htaken)
  · have hbad := hrefused.refused [] _ hbytes hflat
    rw [hcode] at hbad
    cases hbad
  · have hgood := (htaken [] _ hbytes hflat (Nat.zero_le _)).2.2
    rw [hcode] at hgood
    split_ifs at hgood

end

/-- **The numerals whose length field is honoured.** The type must be whole. A numeral
that no border cuts must fit in an `int`, be refused, or be the one that the saturated
conversion happens to hit. Of one that a border cuts, the numeral that memory shows must
have the value of the whole one, or be refused. -/
theorem length_honoured_iff (w : Layout) (configured : ℕ) (B H N : List UInt8)
    (hw : w.Apart (blockSize (requestBufferSize configured)))
    (hB : All isBlank B) (hH : All isHeaderByte H) (hne : N ≠ []) (hN : All isDigit N) :
    (LengthRefused w (requestBufferSize configured) B H N ∨
      LengthTaken w (requestBufferSize configured) B H N) ↔
      ¬ TypeCut (requestBufferSize configured) B ∧
        (¬ NumeralCut (requestBufferSize configured) B H N → decimal N ≤ 2147483647 ∨
          decimal N = 2 ^ 64 - 1 ∨ decimal N < 2 ^ 63 ∧ 2 ^ 32 ∣ decimal N) ∧
        (NumeralCut (requestBufferSize configured) B H N →
          lengthOf (shownNumeral w (requestBufferSize configured) B H N) = 0 ∨
            lengthOf (shownNumeral w (requestBufferSize configured) B H N) = decimal N) := by
  have hfirst := requestBufferSize_pos configured
  by_cases htype : TypeCut (requestBufferSize configured) B
  · exact iff_of_false (not_honoured_of_typeCut hw hB hH hne hN hfirst htype) (fun h => h.1 htype)
  rw [honoured_iff_shown hw hB hH hne hN hfirst htype]
  by_cases hcut : NumeralCut (requestBufferSize configured) B H N
  · simp only [htype, hcut, not_true, not_false_iff, false_implies, true_implies, true_and]
  · rw [shownNumeral_uncut hN hcut, lengthOf_eq_zero_iff hN, lengthOf_eq_iff hN]
    simp only [htype, hcut, not_false_iff, false_implies, true_implies, true_and, and_true]
    rw [or_comm, or_assoc]

/-- A line in the first block is cut by no border. -/
lemma uncut_of_le {first : ℕ} {B H N : List UInt8} (h : (lengthLine B H N).length ≤ first) :
    ¬ TypeCut first B ∧ ¬ NumeralCut first B H N := by
  simp only [lengthLine, headLines, typeLine, List.length_append, crlf, List.length_cons,
    List.length_nil] at h
  constructor
  · rintro ⟨j, -, hhi⟩
    omega
  · rintro ⟨j, -, hhi⟩
    simp only [headLines, typeLine, List.length_append, crlf, List.length_cons,
      List.length_nil] at hhi
    omega

/-- A body of one byte. -/
theorem length_honoured_one :
    LengthRefused .spaced (requestBufferSize 0) [] [] [49] ∨
      LengthTaken .spaced (requestBufferSize 0) [] [] [49] := by
  obtain ⟨htype, hnumeral⟩ := @uncut_of_le (requestBufferSize 0) [] [] [49] (by decide)
  exact (length_honoured_iff .spaced 0 [] [] [49] (spaced_apart 0) (by decide) (by decide)
    (by decide) (by decide)).mpr ⟨htype, fun _ => by decide, fun h => absurd h hnumeral⟩

/-- `4294967297`, of which the conversion makes a body of one byte. -/
def wrapping : List UInt8 := [52, 50, 57, 52, 57, 54, 55, 50, 57, 55]

/-- A request whose length field says `4294967297` is taken to have one byte. -/
theorem length_honoured_wrapping :
    ¬ ∀ (w : Layout) (configured : ℕ) (B H N : List UInt8),
      w.Apart (blockSize (requestBufferSize configured)) → All isBlank B → All isHeaderByte H →
      N ≠ [] → All isDigit N →
      LengthRefused w (requestBufferSize configured) B H N ∨
        LengthTaken w (requestBufferSize configured) B H N := by
  intro h
  have hbad := h .spaced 0 [] [] wrapping (spaced_apart 0) (by decide) (by decide) (by decide)
    (by decide)
  obtain ⟨htype, hnumeral⟩ := @uncut_of_le (requestBufferSize 0) [] [] wrapping (by decide)
  rw [honoured_iff_shown (spaced_apart 0) (by decide) (by decide) (by decide) (by decide)
    (requestBufferSize_pos 0) htype, shownNumeral_uncut (by decide) hnumeral] at hbad
  revert hbad
  decide

end Xpipe
