import Mathlib.Data.Nat.Digits.Defs
import Xpipe.Spans

/-!
# Decoding undoes encoding

A request is encoded into one buffer and parsed in chunks. Whatever the chunks, the
marks that the parser leaves give back the headers and the body.
-/
namespace Xpipe
open Machines

/-! ## The text determines its parts -/

lemma typeLine_unique {T T' X X' : List UInt8} (ht : TypeLine T) (ht' : TypeLine T')
    (h : T ++ X = T' ++ X') : T = T' ∧ X = X' := by
  obtain ⟨B, tok, hB, hne, hup, rfl⟩ := ht
  obtain ⟨B', tok', hB', hne', hup', rfl⟩ := ht'
  obtain ⟨c, tok, rfl⟩ := List.exists_cons_of_ne_nil hne
  obtain ⟨c', tok', rfl⟩ := List.exists_cons_of_ne_nil hne'
  have hblanks : B ++ c :: (tok ++ (CR :: LF :: X)) = B' ++ c' :: (tok' ++ (CR :: LF :: X')) := by
    simpa [crlf] using h
  obtain ⟨rfl, rfl, htok⟩ := span_unique hB (not_isBlank_of_isUpper (hup c (by simp))) hB'
    (not_isBlank_of_isUpper (hup' c' (by simp))) hblanks
  obtain ⟨rfl, -, hX⟩ := span_unique (p := isUpper) (fun x hx => hup x (by simp [hx])) (by decide)
    (fun x hx => hup' x (by simp [hx])) (by decide) htok
  exact ⟨rfl, (List.cons.inj hX).2⟩

/-- A part of a line, up to its CR and LF. -/
lemma part_unique {p : UInt8 → Bool} (hCR : p CR = false) {W W' X X' : List UInt8} (hW : All p W)
    (hW' : All p W') (h : W ++ (crlf ++ X) = W' ++ (crlf ++ X')) : W = W' ∧ X = X' := by
  obtain ⟨rfl, -, hX⟩ := span_unique hW hCR hW' hCR h
  exact ⟨rfl, (List.cons.inj hX).2⟩

lemma headers_unique {T T' H H' X X' : List UInt8} (ht : TypeLine T) (ht' : TypeLine T')
    (hH : All isHeaderByte H) (hH' : All isHeaderByte H')
    (h : T ++ H ++ crlf ++ X = T' ++ H' ++ crlf ++ X') : T = T' ∧ H = H' ∧ X = X' := by
  simp only [List.append_assoc] at h
  obtain ⟨rfl, hrest⟩ := typeLine_unique ht ht' h
  obtain ⟨rfl, hX⟩ := part_unique (by decide) hH hH' hrest
  exact ⟨rfl, rfl, hX⟩

/-- The text of a `PUT` determines its parts. -/
lemma lineText_unique {T T' H H' N N' D D' : List UInt8} (ht : TypeLine T) (ht' : TypeLine T')
    (hH : All isHeaderByte H) (hH' : All isHeaderByte H') (hN : Numeral N) (hN' : Numeral N')
    (h : lineText T H N ++ D = lineText T' H' N' ++ D') : T = T' ∧ H = H' ∧ N = N' ∧ D = D' := by
  have hsplit : T ++ H ++ crlf ++ (N ++ (crlf ++ D)) = T' ++ H' ++ crlf ++ (N' ++ (crlf ++ D')) := by
    simpa [lineText] using h
  obtain ⟨rfl, rfl, hrest⟩ := headers_unique ht ht' hH hH' hsplit
  obtain ⟨rfl, hD⟩ := part_unique (by decide) hN.2 hN'.2 hrest
  exact ⟨rfl, rfl, rfl, hD⟩

/-! ## Encoding -/

/-- The digits of a number, most significant first. -/
def numeralOf (n : ℕ) : List UInt8 := (Nat.digits 10 n).reverse.map (fun d => UInt8.ofNat (48 + d))

lemma numeralOf_digits (n : ℕ) : All isDigit (numeralOf n) := by
  intro c hc
  obtain ⟨d, hd, rfl⟩ := List.mem_map.mp hc
  have hlt : d < 10 := Nat.digits_lt_base (by norm_num) (List.mem_reverse.mp hd)
  interval_cases d <;> decide

lemma decimal_numeralOf (n : ℕ) : decimal (numeralOf n) = n := by
  have hdigits : ∀ l : List ℕ, (∀ d ∈ l, d < 10) →
      decimal (l.reverse.map (fun d => UInt8.ofNat (48 + d))) = Nat.ofDigits 10 l := by
    intro l
    induction l with
    | nil => exact fun _ => rfl
    | cons d l ih =>
      intro hl
      have hd : d < 10 := hl d (by simp)
      have hvalue : (UInt8.ofNat (48 + d)).toNat - 48 = d := by interval_cases d <;> rfl
      rw [Nat.ofDigits_cons, ← ih (fun x hx => hl x (by simp [hx]))]
      simp only [decimal, List.reverse_cons, List.map_append, List.map_cons, List.map_nil,
        List.foldl_append, List.foldl_cons, List.foldl_nil, hvalue]
      simp [add_comm]
  rw [numeralOf, hdigits _ (fun d hd => Nat.digits_lt_base (by norm_num) hd), Nat.ofDigits_digits]

lemma numeralOf_ne_nil {n : ℕ} (h : n ≠ 0) : numeralOf n ≠ [] := by
  intro hnil
  have hvalue := decimal_numeralOf n
  rw [hnil] at hvalue
  exact h hvalue.symm

/-- A `PUT` request. -/
def encodePut (B H D : List UInt8) : List UInt8 :=
  headLines B .put H ++ numeralOf D.length ++ crlf ++ D

lemma run_encodePut {B H D : List UInt8} (hB : All isBlank B) (hH : All isHeaderByte H)
    (hD : D ≠ []) (hlen : D.length ≤ 2147483647) :
    run advance .start (encodePut B H D) = .ok (.data D.length 0) := by
  have hpos : D.length ≠ 0 := List.length_eq_zero_iff.not.mpr hD
  have hvalue : lengthOf (numeralOf D.length) = D.length := by
    have hkeep := (lengthOf_eq_iff (numeralOf_digits D.length)).mpr
      (Or.inl ((decimal_numeralOf D.length).le.trans hlen))
    rw [hkeep, decimal_numeralOf]
  have hline := run_lengthLine hB hH (numeralOf_ne_nil hpos) (numeralOf_digits D.length)
    (by rwa [hvalue])
  rw [encodePut, run_append_of_ok hline, hvalue, run_body hD (le_refl _), Nat.sub_self]

/-! ## Chunks of one buffer -/

/-- The bytes between two pointers into one buffer; none for NULL. -/
def between (bs : List Buffer) (p q : Option Ptr) : List UInt8 :=
  match p, q with
  | some p, some q => ((received bs p.blk).take q.off).drop p.off
  | _, _ => []

/-- **Chunks that make up a request are decoded**: the last of them returns DONE. -/
lemma feed_decoded {w : Layout} {bs : List Buffer} {pro : Protocol} {ph ph' : Phase}
    {read : List UInt8} {t : ReqType} (chunks : List (List UInt8)) (hf : Follows bs pro ph)
    (hk : Kept bs pro read) (hopen : ph.completeType = none)
    (hrun : run advance ph chunks.flatten = .ok ph') (hc : ph'.completeType = some t) :
    (feed w bs pro chunks).code = .done ∧ (feed w bs pro chunks).pro.type = t ∧
      (feed w bs pro chunks).pro.dataLen = ph'.length ∧
      (feed w bs pro chunks).buffers.length = bs.length ∧
      Decoded (feed w bs pro chunks).buffers (feed w bs pro chunks).pro
        (read ++ chunks.flatten) := by
  induction chunks generalizing bs pro ph read with
  | nil =>
    cases hrun
    rw [hopen] at hc
    cases hc
  | cons c cs ih =>
    have hfollow := parseChunk_follows w hk.2 hf c
    obtain ⟨hok, hdone, -⟩ := hk.parse w c
    have hlength : (parseChunk w bs pro c).buffers.length = bs.length := by
      rw [(parseChunk_shape w bs pro c).length, length_extendLast]
    rw [List.flatten_cons, run_append_ok_iff] at hrun
    obtain ⟨ph₁, hc₁, hrest⟩ := hrun
    rw [hc₁] at hfollow
    obtain ⟨hgo, hstop⟩ := hfollow
    unfold feed
    cases hcomplete : ph₁.completeType with
    | some t' =>
      obtain ⟨hcode, hty, hlen, -⟩ := hstop t' hcomplete
      have hnil : cs.flatten = [] := by
        by_contra hne
        rw [run_complete hcomplete hne] at hrest
        cases hrest
      rw [hnil] at hrest
      cases hrest
      rw [hcomplete] at hc
      cases hc
      simp only [hcode, reduceCtorEq, if_false]
      refine ⟨trivial, hty, hlen, hlength, ?_⟩
      rw [List.flatten_cons, hnil, List.append_nil]
      exact hdone hcode
    | none =>
      obtain ⟨hcode, hnext⟩ := hgo hcomplete
      simp only [hcode, if_true]
      have hall := ih hnext (hok hcode) hcomplete hrest
      rw [hlength, List.append_assoc] at hall
      exact hall

/-- In one buffer a place is an offset. -/
lemma PointsAt.one {bs : List Buffer} {p : Ptr} {n : ℕ} (h : PointsAt bs p n)
    (hone : bs.length = 1) : p = ⟨0, n⟩ := by
  have hblk : p.blk = 0 := by
    have hblock := h.block
    omega
  have hplace := h.place
  rw [hblk] at hplace
  have hoff : p.off = n := by simpa [Segments.index] using hplace
  cases p
  simp only at hblk hoff
  rw [hblk, hoff]

lemma received_one {bs : List Buffer} (hone : bs.length = 1) : received bs 0 = contents bs := by
  obtain ⟨b, rfl⟩ := List.length_eq_one_iff.mp hone
  simp [received, contents, filled]

/-- The headers of a request in one buffer are `H`; both marks are NULL when `H` is
empty. -/
structure HeadersDecoded (r : Parsed) (H : List UInt8) : Prop where
  bytes : between r.buffers r.pro.headersStart r.pro.headersEnd = H
  empty : H = [] → r.pro.headersStart = none ∧ r.pro.headersEnd = none
  marked : H ≠ [] → r.pro.headersStart ≠ none ∧ r.pro.headersEnd ≠ none

lemma HeadersAt.decoded {r : Parsed} {T H rest : List UInt8}
    (h : HeadersAt r.buffers r.pro.marks T H) (hone : r.buffers.length = 1)
    (hcontents : contents r.buffers = T ++ H ++ rest) : HeadersDecoded r H := by
  by_cases hH : H = []
  · obtain ⟨hstart, hend⟩ := h.empty hH
    have hstart' : r.pro.headersStart = none := hstart
    refine ⟨?_, fun _ => ⟨hstart, hend⟩, fun hne => absurd hH hne⟩
    rw [hstart', hH]
    rfl
  · obtain ⟨p, q, hstart, hend, hp, hq⟩ := h.marked hH
    have hstart' : r.pro.headersStart = some p := hstart
    have hend' : r.pro.headersEnd = some q := hend
    refine ⟨?_, fun hnil => absurd hnil hH, fun _ => ?_⟩
    · rw [hstart', hend', hp.one hone, hq.one hone, between, received_one hone, hcontents,
        List.take_left, List.drop_left]
    · rw [hstart', hend']
      exact ⟨by simp, by simp⟩

/-- What the parser leaves of a `PUT` with headers `H` and body `D`. -/
structure PutDecoded (r : Parsed) (H D : List UInt8) : Prop where
  done : r.code = .done
  type : r.pro.type = .put
  headers : HeadersDecoded r H
  dataLen : r.pro.dataLen = D.length
  marked : ∃ p q : ℕ, r.pro.dataStart = some ⟨0, p⟩ ∧ r.pro.dataEnd = some ⟨0, q⟩ ∧
    (q : ℤ) - p = D.length
  bytes : between r.buffers r.pro.dataStart r.pro.dataEnd = D

/-- What the parser leaves of a request of another type with headers `H`. -/
structure HeadDecoded (r : Parsed) (t : ReqType) (H : List UInt8) : Prop where
  done : r.code = .done
  type : r.pro.type = t
  headers : HeadersDecoded r H
  noData : r.pro.dataStart = none ∧ r.pro.dataEnd = none

lemma typeLine_ok {B : List UInt8} {t : ReqType} (hB : All isBlank B) (ht : t ≠ .unknow) :
    TypeLine (typeLine B t) :=
  ⟨B, t.name, hB, (name_upper ht).1, (name_upper ht).2, rfl⟩

/-- **Decoding undoes encoding**, for every way to cut the request into chunks. -/
theorem decode_encode (w : Layout) (size : ℕ) (B H : List UInt8) (hB : All isBlank B)
    (hH : All isHeaderByte H) :
    (∀ (D : List UInt8) (chunks : List (List UInt8)), D ≠ [] → D.length ≤ 2147483647 →
      chunks.flatten = encodePut B H D →
        PutDecoded (feed w [⟨size, []⟩] protocolInit chunks) H D) ∧
    ∀ (t : ReqType) (chunks : List (List UInt8)), t ≠ .unknow → t ≠ .put →
      chunks.flatten = headLines B t H →
        HeadDecoded (feed w [⟨size, []⟩] protocolInit chunks) t H := by
  constructor
  · intro D chunks hD hlen hflat
    obtain ⟨hdone, hty, hvalue, hone, hdecoded⟩ := @feed_decoded w _ _ _ _ _ _ chunks
      (follows_init size) (kept_init size) rfl (by rw [hflat, run_encodePut hB hH hD hlen]) rfl
    rw [hflat, List.nil_append] at hdecoded
    cases hdecoded with
    | head hput => exact absurd hty hput
    | @body T' H' N' D' x p q hput hh hn hx htext hsame hlength hbuf hstart hp hstop hlast hq =>
      have hline : encodePut B H D = lineText (typeLine B .put) H (numeralOf D.length) ++ D := rfl
      have hnumeral : Numeral (numeralOf D.length) :=
        ⟨numeralOf_ne_nil (List.length_eq_zero_iff.not.mpr hD), numeralOf_digits _⟩
      obtain ⟨rfl, rfl, rfl, rfl⟩ := lineText_unique (typeLine_ok hB (by decide)) hh.typeLine hH
        hh.headers hnumeral hn (hline.symm.trans htext)
      have hp := hp.one hone
      have hq := hq.one hone
      have hstored : (lineStored (typeLine B .put) H (numeralOf D.length) x).length =
          (lineText (typeLine B .put) H (numeralOf D.length)).length := by
        simp [lineText, lineStored, crlf]
      have hbehind : lineStored (typeLine B .put) H (numeralOf D.length) x ++ D =
          typeLine B .put ++ H ++ (crlf ++ numeralOf D.length ++ [x, LF] ++ D) := by
        simp [lineStored]
      rw [hline] at hq
      refine ⟨hdone, hty, hh.decoded hone (hsame.trans hbehind), hvalue,
        ⟨_, _, hp ▸ hstart, hq ▸ hstop, ?_⟩, ?_⟩
      · rw [List.length_append]
        push_cast
        omega
      · rw [hstart, hstop, hp, hq, between, received_one hone, hsame, List.take_of_length_le,
          ← hstored, List.drop_left]
        rw [List.length_append, List.length_append, hstored]
  · intro t chunks ht hput hflat
    obtain ⟨hdone, hty, -, hone, hdecoded⟩ := @feed_decoded w _ _ _ _ _ t chunks
      (follows_init size) (kept_init size) rfl (by rw [hflat, run_headLines hB ht hH])
      (by simp [Phase.completeType, hput])
    rw [hflat, List.nil_append] at hdecoded
    cases hdecoded with
    | body hbad => exact absurd (hty.symm.trans hbad) hput
    | @head T' H' hnot hh hnone htext hsame =>
      have hline : headLines B t H ++ [] = T' ++ H' ++ crlf ++ [] := by rw [htext]
      obtain ⟨rfl, rfl, -⟩ := headers_unique (typeLine_ok hB ht) hh.typeLine hH hh.headers hline
      exact ⟨hdone, hty, hh.decoded hone (hsame.trans rfl), hnone.2⟩

/-- `PUT` with the headers `k` and the body `v`, in two chunks. -/
theorem decode_encode_put :
    PutDecoded (feed .spaced [⟨1024, []⟩] protocolInit
      [[80, 85, 84, 13, 10, 107, 13, 10, 49, 13], [10, 118]]) [107] [118] :=
  (decode_encode .spaced 1024 [] [107] (by decide) (by decide)).1 [118] _ (by decide) (by decide)
    (by decide)

end Xpipe
