import Xpipe.Machines
import Xpipe.Protocol

/-!
# The request language

What the parser is for, without buffers and pointers: a machine over bytes whose
states carry the text of the token being read (`Phase`), and the language it
accepts. A `WireRequest` is a request taken apart; it can only be built with
blanks, headers, a numeral and a body that fit together. `advance_run_iff` says
for every state exactly which byte strings lead to it.
-/
namespace Xpipe
open Machines

/-- The type with a given name. -/
def ReqType.ofName (tok : List UInt8) : Option ReqType :=
  if tok = put.name then some .put
  else if tok = get.name then some .get
  else if tok = list.name then some .list
  else if tok = queue.name then some .queue
  else none

/-- The conversion of the length numeral to `size_t`. -/
def lengthOf (numeral : List UInt8) : ℕ := toSizeT (atoi numeral)

/-- The states of the parser, with the text that the source keeps as pointers.
In `data n k` the body has `n` bytes, `k` of them still to come. -/
inductive Phase
  | start
  | type (tok : List UInt8)
  | typeCr (tok : List UInt8)
  | typeLf (t : ReqType)
  | headers (t : ReqType)
  | headersCr (t : ReqType)
  | headersLf (t : ReqType)
  | dataLen (tok : List UInt8)
  | dataLenCr (tok : List UInt8)
  | dataLenLf (n : ℕ)
  | data (n k : ℕ)
  deriving DecidableEq, Repr

/-- One byte of the request language. -/
def advance : Phase → UInt8 → Except Code Phase
  | .start, c =>
    if isBlank c then .ok .start else if isUpper c then .ok (.type [c]) else .error .typeInvalid
  | .type tok, c =>
    if c = CR then .ok (.typeCr tok)
    else if isUpper c then .ok (.type (tok ++ [c])) else .error .typeInvalid
  | .typeCr tok, c =>
    if c = LF then
      match ReqType.ofName tok with
      | some t => .ok (.typeLf t)
      | none => .error .typeNotFound
    else .error .onlyCr
  | .typeLf t, c =>
    if c = CR then .ok (.headersCr t)
    else if isHeaderByte c then .ok (.headers t) else .error .headersInvalid
  | .headers t, c =>
    if c = CR then .ok (.headersCr t)
    else if isHeaderByte c then .ok (.headers t) else .error .headersInvalid
  | .headersCr t, c => if c = LF then .ok (.headersLf t) else .error .error
  | .headersLf t, c =>
    if t = .put then (if isDigit c then .ok (.dataLen [c]) else .error .dataLenInvalid)
    else .error .needlessData
  | .dataLen tok, c =>
    if c = CR then .ok (.dataLenCr tok)
    else if isDigit c then .ok (.dataLen (tok ++ [c])) else .error .dataLenInvalid
  | .dataLenCr tok, c =>
    if c = LF then
      (if lengthOf tok = 0 then .error .dataLenInvalid else .ok (.dataLenLf (lengthOf tok)))
    else .error .onlyCr
  | .dataLenLf n, _ => .ok (.data n (n - 1))
  | .data n k, _ => if k = 0 then .error .needlessData else .ok (.data n (k - 1))

/-- The request type of a complete request, in the phases that end one. -/
def Phase.completeType : Phase → Option ReqType
  | .headersLf t => if t = .put then none else some t
  | .data _ 0 => some .put
  | _ => none

/-- Nothing can follow a complete request. -/
theorem advance_complete {ph : Phase} {t : ReqType} (h : ph.completeType = some t) (c : UInt8) :
    advance ph c = .error .needlessData := by
  cases ph with
  | headersLf t' =>
    simp only [Phase.completeType] at h
    split_ifs at h with ht
    simp [advance, ht]
  | data n k =>
    cases k with
    | zero => simp [advance]
    | succ k => simp [Phase.completeType] at h
  | _ => simp [Phase.completeType] at h

/-- No step stops with OK or DONE. -/
lemma advance_error {ph : Phase} {c : UInt8} {e : Code} (h : advance ph c = .error e) :
    e ≠ .ok ∧ e ≠ .done := by
  cases ph with
  | typeCr tok =>
    simp only [advance] at h
    split_ifs at h
    · split at h <;> cases h
      simp
    · cases h
      simp
  | dataLenLf n => cases h
  | _ =>
    simp only [advance] at h
    split_ifs at h <;> cases h <;> simp

lemma advance_run_error {ph : Phase} {s : List UInt8} {e : Code}
    (h : run advance ph s = .error e) : e ≠ .ok ∧ e ≠ .done := by
  induction s generalizing ph with
  | nil => cases h
  | cons c s ih =>
    cases hc : advance ph c with
    | error e' =>
      rw [run_cons_error hc] at h
      cases h
      exact advance_error hc
    | ok ph' =>
      rw [run_cons_ok hc] at h
      exact ih h

/-! ## The language -/

/-- The bytes up to and including the LF of the type line. -/
def typeLine (B : List UInt8) (t : ReqType) : List UInt8 := B ++ t.name ++ crlf

/-- The bytes up to and including the LF of the headers line. -/
def headLines (B : List UInt8) (t : ReqType) (H : List UInt8) : List UInt8 :=
  typeLine B t ++ H ++ crlf

/-- A request taken apart. The numeral and the body belong to `PUT` only. -/
structure WireRequest where
  type : ReqType
  blanks : List UInt8
  headers : List UInt8
  numeral : List UInt8
  body : List UInt8
  type_known : type ≠ .unknow
  blanks_ok : All isBlank blanks
  headers_ok : All isHeaderByte headers
  numeral_ok : type = .put → numeral ≠ [] ∧ All isDigit numeral
  body_ok : type = .put → 1 ≤ decimal numeral ∧ body.length = decimal numeral

/-- `B T CRLF H CRLF`, and for `PUT` also `N CRLF D`. -/
def WireRequest.bytes (m : WireRequest) : List UInt8 :=
  headLines m.blanks m.type m.headers ++
    if m.type = .put then m.numeral ++ crlf ++ m.body else []

/-- The byte strings that lead to a phase. -/
def Spells : Phase → List UInt8 → Prop
  | .start, s => All isBlank s
  | .type tok, s => ∃ B, All isBlank B ∧ tok ≠ [] ∧ All isUpper tok ∧
      s = B ++ tok
  | .typeCr tok, s => ∃ B, All isBlank B ∧ tok ≠ [] ∧ All isUpper tok ∧
      s = B ++ tok ++ [CR]
  | .typeLf t, s => ∃ B, All isBlank B ∧ t ≠ .unknow ∧ s = typeLine B t
  | .headers t, s => ∃ B H, All isBlank B ∧ t ≠ .unknow ∧ H ≠ [] ∧
      All isHeaderByte H ∧ s = typeLine B t ++ H
  | .headersCr t, s => ∃ B H, All isBlank B ∧ t ≠ .unknow ∧
      All isHeaderByte H ∧ s = typeLine B t ++ H ++ [CR]
  | .headersLf t, s => ∃ B H, All isBlank B ∧ t ≠ .unknow ∧
      All isHeaderByte H ∧ s = headLines B t H
  | .dataLen tok, s => ∃ B H, All isBlank B ∧ All isHeaderByte H ∧
      tok ≠ [] ∧ All isDigit tok ∧ s = headLines B .put H ++ tok
  | .dataLenCr tok, s => ∃ B H, All isBlank B ∧ All isHeaderByte H ∧
      tok ≠ [] ∧ All isDigit tok ∧ s = headLines B .put H ++ tok ++ [CR]
  | .dataLenLf n, s => ∃ B H N, All isBlank B ∧ All isHeaderByte H ∧
      N ≠ [] ∧ All isDigit N ∧ n = lengthOf N ∧ n ≠ 0 ∧
      s = headLines B .put H ++ N ++ crlf
  | .data n k, s => ∃ B H N D, All isBlank B ∧ All isHeaderByte H ∧
      N ≠ [] ∧ All isDigit N ∧ n = lengthOf N ∧ n ≠ 0 ∧ D ≠ [] ∧
      k + D.length = n ∧ s = headLines B .put H ++ N ++ crlf ++ D

lemma ofName_eq_some {tok : List UInt8} {t : ReqType} :
    ReqType.ofName tok = some t ↔ t ≠ .unknow ∧ tok = t.name := by
  unfold ReqType.ofName
  constructor
  · intro h
    split_ifs at h <;> cases h <;> simp_all
  · rintro ⟨ht, rfl⟩
    cases t with
    | unknow => exact absurd rfl ht
    | _ => simp [ReqType.name]

/-- One byte takes the strings of a phase to strings of the next. -/
lemma spells_advance {ph ph' : Phase} {s : List UInt8} {c : UInt8} (h : Spells ph s)
    (ha : advance ph c = .ok ph') : Spells ph' (s ++ [c]) := by
  cases ph with
  | start =>
    simp only [advance] at ha
    split_ifs at ha with h1 h2 <;> cases ha
    · exact All.snoc h h1
    · exact ⟨s, h, by simp, All.singleton h2, rfl⟩
  | type tok =>
    obtain ⟨B, hB, hne, htok, rfl⟩ := h
    simp only [advance] at ha
    split_ifs at ha with h1 h2 <;> cases ha
    · exact ⟨B, hB, hne, htok, by rw [h1]⟩
    · exact ⟨B, hB, by simp, htok.snoc h2, by rw [List.append_assoc]⟩
  | typeCr tok =>
    obtain ⟨B, hB, hne, htok, rfl⟩ := h
    simp only [advance] at ha
    split_ifs at ha with h1
    split at ha <;> cases ha
    rename_i t ht
    obtain ⟨hknown, rfl⟩ := ofName_eq_some.mp ht
    exact ⟨B, hB, hknown, by simp [typeLine, crlf, h1]⟩
  | typeLf t =>
    obtain ⟨B, hB, ht, rfl⟩ := h
    simp only [advance] at ha
    split_ifs at ha with h1 h2 <;> cases ha
    · exact ⟨B, [], hB, ht, by simp [All], by simp [h1]⟩
    · exact ⟨B, [c], hB, ht, by simp, All.singleton h2, rfl⟩
  | headers t =>
    obtain ⟨B, H, hB, ht, -, hH, rfl⟩ := h
    simp only [advance] at ha
    split_ifs at ha with h1 h2 <;> cases ha
    · exact ⟨B, H, hB, ht, hH, by rw [h1]⟩
    · exact ⟨B, H ++ [c], hB, ht, by simp, hH.snoc h2, by rw [List.append_assoc]⟩
  | headersCr t =>
    obtain ⟨B, H, hB, ht, hH, rfl⟩ := h
    simp only [advance] at ha
    split_ifs at ha with h1
    cases ha
    exact ⟨B, H, hB, ht, hH, by simp [headLines, crlf, h1]⟩
  | headersLf t =>
    obtain ⟨B, H, hB, ht, hH, rfl⟩ := h
    simp only [advance] at ha
    split_ifs at ha with h1 h2
    cases ha
    subst h1
    exact ⟨B, H, hB, hH, by simp, All.singleton h2, rfl⟩
  | dataLen tok =>
    obtain ⟨B, H, hB, hH, hne, htok, rfl⟩ := h
    simp only [advance] at ha
    split_ifs at ha with h1 h2 <;> cases ha
    · exact ⟨B, H, hB, hH, hne, htok, by rw [h1]⟩
    · exact ⟨B, H, hB, hH, by simp, htok.snoc h2, by rw [List.append_assoc]⟩
  | dataLenCr tok =>
    obtain ⟨B, H, hB, hH, hne, htok, rfl⟩ := h
    simp only [advance] at ha
    split_ifs at ha with h1 h2
    cases ha
    exact ⟨B, H, tok, hB, hH, hne, htok, rfl, h2, by simp [crlf, h1]⟩
  | dataLenLf n =>
    obtain ⟨B, H, N, hB, hH, hne, hN, hn, hn0, rfl⟩ := h
    cases ha
    exact ⟨B, H, N, [c], hB, hH, hne, hN, hn, hn0, by simp, by simp; omega, rfl⟩
  | data n k =>
    obtain ⟨B, H, N, D, hB, hH, hne, hN, hn, hn0, hD, hk, rfl⟩ := h
    simp only [advance] at ha
    split_ifs at ha with h1
    cases ha
    exact ⟨B, H, N, D ++ [c], hB, hH, hne, hN, hn, hn0, by simp, by simp; omega,
      by rw [List.append_assoc]⟩

lemma ne_CR_of_isUpper {c : UInt8} (h : isUpper c = true) : c ≠ CR := by
  rintro rfl
  exact absurd h (by decide)

lemma not_isBlank_of_isUpper {c : UInt8} (h : isUpper c = true) : isBlank c = false := by
  by_contra hb
  simp only [Bool.not_eq_false, isBlank, Bool.or_eq_true, beq_iff_eq] at hb
  rcases hb with ((rfl | rfl) | rfl) | rfl <;> exact absurd h (by decide)

lemma ne_CR_of_isHeaderByte {c : UInt8} (h : isHeaderByte c = true) : c ≠ CR := by
  rintro rfl
  exact absurd h (by decide)

lemma ne_CR_of_isDigit {c : UInt8} (h : isDigit c = true) : c ≠ CR := by
  rintro rfl
  exact absurd h (by decide)

lemma run_type {tok : List UInt8} (s : List UInt8) (h : All isUpper s) :
    run advance (.type tok) s = .ok (.type (tok ++ s)) := by
  induction s generalizing tok with
  | nil => simp
  | cons c s ih =>
    have hc := h c (by simp)
    rw [run_cons_ok (t := .type (tok ++ [c])) (by simp [advance, ne_CR_of_isUpper hc, hc]),
      ih (fun d hd => h d (by simp [hd]))]
    simp

lemma run_dataLen {tok : List UInt8} (s : List UInt8) (h : All isDigit s) :
    run advance (.dataLen tok) s = .ok (.dataLen (tok ++ s)) := by
  induction s generalizing tok with
  | nil => simp
  | cons c s ih =>
    have hc := h c (by simp)
    rw [run_cons_ok (t := .dataLen (tok ++ [c])) (by simp [advance, ne_CR_of_isDigit hc, hc]),
      ih (fun d hd => h d (by simp [hd]))]
    simp

lemma run_start_type {B tok : List UInt8} (hB : All isBlank B) (hne : tok ≠ [])
    (htok : All isUpper tok) : run advance .start (B ++ tok) = .ok (.type tok) := by
  cases tok with
  | nil => exact absurd rfl hne
  | cons c tok =>
    have hc := htok c (by simp)
    rw [run_append_of_ok (run_stay (fun d hd => by simp [advance, hB d hd])),
      run_cons_ok (t := .type [c]) (by simp [advance, not_isBlank_of_isUpper hc, hc]),
      run_type tok (fun d hd => htok d (by simp [hd]))]
    simp

lemma name_upper {t : ReqType} (ht : t ≠ .unknow) : t.name ≠ [] ∧ All isUpper t.name := by
  cases t with
  | unknow => exact absurd rfl ht
  | _ => exact ⟨by simp [ReqType.name], by decide⟩

lemma run_typeLine {B : List UInt8} {t : ReqType} (hB : All isBlank B) (ht : t ≠ .unknow) :
    run advance .start (typeLine B t) = .ok (.typeLf t) := by
  obtain ⟨hne, hup⟩ := name_upper ht
  have hname : ReqType.ofName t.name = some t := ofName_eq_some.mpr ⟨ht, rfl⟩
  rw [typeLine, run_append_of_ok (run_start_type hB hne hup), crlf,
    run_cons_ok (t := .typeCr t.name) (by simp [advance]),
    run_cons_ok (t := .typeLf t) (by simp [advance, hname]), run_nil]

lemma run_headers {t : ReqType} {H : List UInt8} (hH : All isHeaderByte H) :
    run advance (.headers t) H = .ok (.headers t) :=
  run_stay (fun c hc => by simp [advance, ne_CR_of_isHeaderByte (hH c hc), hH c hc])

lemma run_headers_cr {t : ReqType} {H : List UInt8} (hH : All isHeaderByte H) :
    run advance (.typeLf t) (H ++ [CR]) = .ok (.headersCr t) := by
  cases H with
  | nil => simp [run, advance]
  | cons c H =>
    have hc := hH c (by simp)
    rw [List.cons_append,
      run_cons_ok (t := .headers t) (by simp [advance, ne_CR_of_isHeaderByte hc, hc]),
      run_append_of_ok (run_headers (fun d hd => hH d (by simp [hd])))]
    simp [run, advance]

lemma run_headLines {B H : List UInt8} {t : ReqType} (hB : All isBlank B) (ht : t ≠ .unknow)
    (hH : All isHeaderByte H) : run advance .start (headLines B t H) = .ok (.headersLf t) := by
  have hsplit : headLines B t H = typeLine B t ++ ((H ++ [CR]) ++ [LF]) := by
    simp [headLines, crlf]
  rw [hsplit, run_append_of_ok (run_typeLine hB ht), run_append_of_ok (run_headers_cr hH)]
  simp [run, advance]

lemma run_numeral {B H N : List UInt8} (hB : All isBlank B) (hH : All isHeaderByte H)
    (hne : N ≠ []) (hN : All isDigit N) :
    run advance .start (headLines B .put H ++ N) = .ok (.dataLen N) := by
  cases N with
  | nil => exact absurd rfl hne
  | cons c N =>
    have hc := hN c (by simp)
    rw [run_append_of_ok (run_headLines hB (by simp) hH),
      run_cons_ok (t := .dataLen [c]) (by simp [advance, hc]),
      run_dataLen N (fun d hd => hN d (by simp [hd]))]
    simp

lemma run_lengthLine {B H N : List UInt8} (hB : All isBlank B) (hH : All isHeaderByte H)
    (hne : N ≠ []) (hN : All isDigit N) (hn : lengthOf N ≠ 0) :
    run advance .start (headLines B .put H ++ N ++ crlf) = .ok (.dataLenLf (lengthOf N)) := by
  rw [run_append_of_ok (run_numeral hB hH hne hN), crlf,
    run_cons_ok (t := .dataLenCr N) (by simp [advance]),
    run_cons_ok (t := .dataLenLf (lengthOf N)) (by simp [advance, hn]), run_nil]

lemma run_data (n k : ℕ) (D : List UInt8) (h : D.length ≤ k) :
    run advance (.data n k) D = .ok (.data n (k - D.length)) := by
  induction D generalizing k with
  | nil => simp
  | cons c D ih =>
    simp only [List.length_cons] at h ⊢
    rw [run_cons_ok (t := .data n (k - 1)) (by simp [advance]; omega), ih (k - 1) (by omega)]
    congr 2
    omega

lemma run_body {n : ℕ} {D : List UInt8} (hD : D ≠ []) (h : D.length ≤ n) :
    run advance (.dataLenLf n) D = .ok (.data n (n - D.length)) := by
  cases D with
  | nil => exact absurd rfl hD
  | cons c D =>
    simp only [List.length_cons] at h ⊢
    rw [run_cons_ok (t := .data n (n - 1)) rfl, run_data n (n - 1) D (by omega)]
    congr 2
    omega

/-- Every string of a phase leads to it. -/
lemma spells_run {ph : Phase} {s : List UInt8} (h : Spells ph s) :
    run advance .start s = .ok ph := by
  cases ph with
  | start => exact run_stay (fun c hc => by simp [advance, h c hc])
  | type tok =>
    obtain ⟨B, hB, hne, htok, rfl⟩ := h
    exact run_start_type hB hne htok
  | typeCr tok =>
    obtain ⟨B, hB, hne, htok, rfl⟩ := h
    rw [run_append_of_ok (run_start_type hB hne htok)]
    simp [run, advance]
  | typeLf t =>
    obtain ⟨B, hB, ht, rfl⟩ := h
    exact run_typeLine hB ht
  | headers t =>
    obtain ⟨B, H, hB, ht, hne, hH, rfl⟩ := h
    rw [run_append_of_ok (run_typeLine hB ht)]
    cases H with
    | nil => exact absurd rfl hne
    | cons c H =>
      have hc := hH c (by simp)
      rw [run_cons_ok (t := .headers t) (by simp [advance, ne_CR_of_isHeaderByte hc, hc])]
      exact run_headers (fun d hd => hH d (by simp [hd]))
  | headersCr t =>
    obtain ⟨B, H, hB, ht, hH, rfl⟩ := h
    rw [List.append_assoc, run_append_of_ok (run_typeLine hB ht)]
    exact run_headers_cr hH
  | headersLf t =>
    obtain ⟨B, H, hB, ht, hH, rfl⟩ := h
    exact run_headLines hB ht hH
  | dataLen tok =>
    obtain ⟨B, H, hB, hH, hne, htok, rfl⟩ := h
    exact run_numeral hB hH hne htok
  | dataLenCr tok =>
    obtain ⟨B, H, hB, hH, hne, htok, rfl⟩ := h
    rw [run_append_of_ok (run_numeral hB hH hne htok)]
    simp [run, advance]
  | dataLenLf n =>
    obtain ⟨B, H, N, hB, hH, hne, hN, rfl, hn0, rfl⟩ := h
    exact run_lengthLine hB hH hne hN hn0
  | data n k =>
    obtain ⟨B, H, N, D, hB, hH, hne, hN, rfl, hn0, hD, hk, rfl⟩ := h
    rw [run_append_of_ok (run_lengthLine hB hH hne hN hn0), run_body hD (by omega)]
    congr 2
    omega

/-- Exactly which byte strings lead to each phase. -/
theorem advance_run_iff (ph : Phase) (s : List UInt8) :
    run advance .start s = .ok ph ↔ Spells ph s := by
  refine ⟨fun h => ?_, spells_run⟩
  have hinit : Spells .start [] := by simp [Spells, All]
  simpa using run_relates (R := fun read ph => Spells ph read)
    (fun read ph c ph' hs ha => spells_advance hs ha) hinit h

/-! ## The value of the length field -/

/-- A numeral of `n` digits is below `10 ^ n`. -/
lemma decimal_lt {N : List UInt8} (hN : All isDigit N) : decimal N < 10 ^ N.length := by
  induction N using List.reverseRecOn with
  | nil => simp [decimal]
  | append_singleton N c ih =>
    have hprev : decimal N < 10 ^ N.length := ih (fun d hd => hN d (by simp [hd]))
    have hc : c.toNat ≤ 57 := by
      have hdigit := hN c (by simp)
      simp only [isDigit, Bool.and_eq_true, decide_eq_true_eq] at hdigit
      exact hdigit.2
    have hsnoc : decimal (N ++ [c]) = 10 * decimal N + (c.toNat - 48) := by simp [decimal]
    rw [hsnoc, List.length_append, List.length_singleton, pow_succ]
    omega

lemma isDigit_not_space {c : UInt8} (h : isDigit c = true) :
    isSpace c = false ∧ c ≠ 45 ∧ c ≠ 43 ∧ c ≠ NUL := by
  refine ⟨?_, ?_, ?_, ?_⟩
  · have hlow : 48 ≤ c := by
      simp only [isDigit, Bool.and_eq_true, decide_eq_true_eq] at h
      exact h.1
    have h13 : ¬ c ≤ 13 := by
      simp only [UInt8.le_iff_toNat_le, UInt8.reduceToNat] at hlow ⊢
      omega
    have h32 : c ≠ 32 := by
      rintro rfl
      exact absurd h (by decide)
    simp [isSpace, h13, h32]
  all_goals
    rintro rfl
    exact absurd h (by decide)

/-- On a numeral, `strtol` saturates its decimal value. -/
lemma strtol_digits {N : List UInt8} (hN : All isDigit N) :
    strtol N = min (decimal N : ℤ) (2 ^ 63 - 1) := by
  have htake : N.takeWhile isDigit = N := List.takeWhile_eq_self_iff.mpr hN
  have hparts : splitSign (N.dropWhile isSpace) = (false, N) := by
    cases N with
    | nil => rfl
    | cons c N =>
      obtain ⟨hs, hm, hp, -⟩ := isDigit_not_space (hN c (by simp))
      simp [hs, splitSign, hm, hp]
  simp only [strtol, hparts, htake]
  rfl

lemma cString_digits {N : List UInt8} (hN : All isDigit N) (x : List UInt8) :
    cString (N ++ NUL :: x) = N := by
  unfold cString
  rw [List.takeWhile_append_of_pos (fun c hc => by simp [(isDigit_not_space (hN c hc)).2.2.2])]
  simp [NUL]

lemma cString_self {N : List UInt8} (hN : All isDigit N) : cString N = N :=
  List.takeWhile_eq_self_iff.mpr (fun c hc => by simp [(isDigit_not_space (hN c hc)).2.2.2])

/-- The conversion of a numeral: saturated, truncated to `int`, widened to `size_t`. -/
lemma lengthOf_digits {N : List UInt8} (hN : All isDigit N) :
    lengthOf N = toSizeT (toInt32 (min (decimal N : ℤ) (2 ^ 63 - 1))) := by
  rw [lengthOf, atoi, cString_self hN, strtol_digits hN]

lemma lengthOf_lt (N : List UInt8) : lengthOf N < 2 ^ 64 := by
  unfold lengthOf toSizeT
  omega

/-- A numeral keeps its value exactly when it fits in an `int`, or is the one
value that the saturated conversion happens to hit. -/
theorem lengthOf_eq_iff {N : List UInt8} (hN : All isDigit N) :
    lengthOf N = decimal N ↔ decimal N ≤ 2147483647 ∨ decimal N = 2 ^ 64 - 1 := by
  rw [lengthOf_digits hN]
  unfold toSizeT toInt32
  rw [Int.bmod_def]
  split_ifs <;> omega

end Xpipe
