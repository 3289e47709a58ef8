import Xpipe.Sessions

/-!
# Dialogues

What a client may send is any byte string, in any reads. `Exchange` says what the server
is for: it collects the bytes of a request, answers when they are complete or can no
longer become a request, and starts again with the next read; what else was in the read
is dropped. `dialogue` says that a connection does this in every run, whatever the other
connections do, as long as no border between blocks cuts a token.
-/
namespace Xpipe
open Linked Machines Runs

/-! ## What a client is told -/

/-- The type of the request, as far as it is known in a phase. -/
def Phase.reqType : Phase → ReqType
  | .start | .type _ | .typeCr _ => .unknow
  | .typeLf t | .headers t | .headersCr t | .headersLf t => t
  | .dataLen _ | .dataLenCr _ | .dataLenLf _ | .data _ _ => .put

/-- The type that is known when the bytes have been read, or can be read no further. -/
def typeRead : Phase → List UInt8 → ReqType
  | ph, [] => ph.reqType
  | ph, c :: cs =>
    match advance ph c with
    | .error _ => ph.reqType
    | .ok ph' => typeRead ph' cs

/-- Only a `PUT` is told anything. -/
def replyTo (t : ReqType) (text : List UInt8) : List UInt8 := if t = .put then text else []

/-- A client and the server: what has been read of the request under way, all that has
been written, and what the parser has said of each read, newest first. -/
structure Exchange where
  pending : List UInt8
  written : List UInt8
  codes : List Code
  deriving DecidableEq, Repr

/-- The server reads a segment. -/
def Exchange.hear (x : Exchange) (segment : List UInt8) : Exchange :=
  let text := x.pending ++ segment
  match run advance .start text with
  | .error code => ⟨[], x.written ++ replyTo (typeRead .start text) errorText, code :: x.codes⟩
  | .ok ph =>
    match ph.completeType with
    | none => ⟨text, x.written, .ok :: x.codes⟩
    | some t => ⟨[], x.written ++ replyTo t okText, .done :: x.codes⟩

/-- No border of the blocks of a request cuts a token of it. -/
def Exchange.Uncut (first : ℕ) (x : Exchange) (segment : List UInt8) : Prop :=
  Xpipe.Uncut first 0 .start (x.pending ++ segment)

lemma typeRead_append {ph ph' : Phase} {s : List UInt8} (h : run advance ph s = .ok ph')
    (rest : List UInt8) : typeRead ph (s ++ rest) = typeRead ph' rest := by
  induction s generalizing ph with
  | nil =>
    cases h
    rfl
  | cons c s ih =>
    cases hc : advance ph c with
    | error e =>
      rw [run_cons_error hc] at h
      cases h
    | ok ph₁ =>
      rw [run_cons_ok hc] at h
      rw [List.cons_append, typeRead, hc]
      exact ih h

/-! ## The type of a request that is refused -/

lemma Tracks.reqType {blk off : ℕ} {s : Scan} {ph : Phase} (h : Tracks blk off s ph) :
    s.pro.type = ph.reqType := by
  have hst := h.stands
  cases ph with
  | start => exact hst.2
  | type tok => exact hst.2.1
  | typeCr tok => exact hst.2.1
  | typeLf t => exact hst.2.1
  | headers t => exact hst.2.1
  | headersCr t => exact hst.2.1
  | headersLf t => exact hst.2.1
  | dataLen tok => exact hst.2.1
  | dataLenCr tok => exact hst.2.1
  | dataLenLf n => exact hst.2.1
  | data n k => exact hst.2.1

/-- A byte that is refused leaves the type as it is. -/
lemma scanByte_error_type {w : Layout} {blk off : ℕ} {c : UInt8} {s s' : Scan} {e : Code}
    (h : scanByte w blk off c s = .error (e, s')) : s'.pro.type = s.pro.type := by
  cases hs : s.state with
  | typeCr =>
    simp only [scanByte, hs, scanType] at h
    split_ifs at h
    · cases h
      rfl
    · split at h
      · cases h
        rfl
      · cases h
  | dataLenCr =>
    simp only [scanByte, hs, scanDataLen] at h
    split_ifs at h
    · cases h
      rfl
    · cases h
      rfl
  | dataLenLf =>
    simp only [scanByte, hs] at h
    cases h
  | _ =>
    simp only [scanByte, hs] at h
    split_ifs at h
    all_goals
      cases h
      rfl

lemma scan_error_type (w : Layout) {blk off : ℕ} {s s' : Scan} {ph : Phase} {e : Code}
    (cs rest : List UInt8) (ht : Tracks blk off s ph)
    (hcs : (received s.buffers blk).drop off = cs ++ rest)
    (h : scan w blk cs.length off s = .error (e, s')) : s'.pro.type = typeRead ph cs := by
  induction cs generalizing off s ph with
  | nil => cases h
  | cons c cs ih =>
    have hc : (received s.buffers blk)[off]? = some c := by
      have h0 : ((received s.buffers blk).drop off)[0]? = some c := by simp [hcs]
      rwa [List.getElem?_drop, Nat.add_zero] at h0
    have htouch : s.touch blk off = s := by
      simp [Scan.touch, hc]
    have hstep := scanByte_tracks w ht hc
    rw [List.length_cons, scan_succ, htouch, hc, Option.getD_some] at h
    cases ha : advance ph c with
    | error e' =>
      rw [ha] at hstep
      obtain ⟨s₁, hs₁⟩ := hstep
      rw [hs₁] at h
      cases h
      rw [scanByte_error_type hs₁, ht.reqType, typeRead, ha]
    | ok ph' =>
      rw [ha] at hstep
      obtain ⟨s₁, hs₁, ht₁⟩ := hstep
      have hrest : (received s₁.buffers blk).drop (off + 1) = cs ++ rest := by
        rw [drop_received_scanByte hs₁, ← List.drop_drop, hcs]
        rfl
      rw [hs₁] at h
      rw [typeRead, ha]
      exact ih ht₁ hrest h

/-- The type that a call leaves behind which returns an error. -/
lemma parseChunk_error_type (w : Layout) {bs : List Buffer} {pro : Protocol} {ph : Phase}
    {chunk : List UInt8} {e : Code} (hbs : bs ≠ []) (hf : Follows bs pro ph)
    (hrun : run advance ph chunk = .error e) :
    (parseChunk w bs pro chunk).pro.type = typeRead ph chunk := by
  have hrec := received_last_extend hbs chunk
  have hentry : Tracks (lastIndex bs) (received bs (lastIndex bs)).length (entry bs pro chunk) ph :=
    Tracks.extend hf hbs chunk
  have htext : (received (entry bs pro chunk).buffers (lastIndex bs)).drop
      (received bs (lastIndex bs)).length = chunk ++ [] := by
    simp [entry, hrec]
  have hscan := scan_tracks w chunk [] hentry htext
  rw [hrun] at hscan
  obtain ⟨s', hs'⟩ := hscan
  rw [parseChunk_eq, hs']
  exact scan_error_type w chunk [] hentry htext hs'

/-! ## What the parser says -/

/-- The codes that the parser has returned to the reads of the entry `e`, newest first. -/
def parsedOn (e : ℕ) (log : List Event) : List Code :=
  log.filterMap (fun
    | .parse i _ code => if i = e then some code else none
    | .release _ _ => none)

/-- The code that it returns in a round on the connection `c`, if the round reads bytes. -/
def codesIn (size : ℕ) (c : Conn) (t : Trace) (o : Outcomes) : List Code :=
  if c.activeEvents.read = true ∧ c.readEventHandler = some .recv then
    (reader size c t o).elim [] (fun r => if r.got o.read = [] then [] else [r.code o])
  else []

lemma parsedOn_parse (e i : ℕ) (r : Request) (code : Code) (log : List Event) :
    parsedOn e (.parse i r code :: log) = (if i = e then [code] else []) ++ parsedOn e log := by
  unfold parsedOn
  rw [List.filterMap_cons]
  by_cases hi : i = e
  · simp [hi]
  · simp [hi]

lemma parsedOn_release (e : ℕ) (r : Request) (close : Bool) (log : List Event) :
    parsedOn e (.release r close :: log) = parsedOn e log := rfl

/-- `tcp_request_finish` calls no parser. -/
lemma tcpRequestFinish_parsedOn (e : ℕ) (c : Conn) (t : Trace) (r : Request)
    (ws : List WriteResult) :
    parsedOn e (tcpRequestFinish c t r ws).2.log = parsedOn e t.log := by
  rcases tcpRequestFinish_cases c t r ws with ⟨-, -, heq⟩ | ⟨-, -, heq⟩ | ⟨-, heq⟩ | ⟨-, -, heq⟩
  · rw [heq]
  all_goals
    rw [heq]
    exact parsedOn_release e _ _ _

/-- A read adds one code to those of its entry. -/
lemma readConn_parsedOn (size e i : ℕ) (c : Conn) (t : Trace) (o : Outcomes) :
    parsedOn e (readConn size i c t o).2.log =
      (if i = e then codesIn size c t o else []) ++ parsedOn e t.log := by
  unfold readConn codesIn
  by_cases hread : c.activeEvents.read = true ∧ c.readEventHandler = some .recv
  swap
  · simp [hread]
  rw [if_pos hread, if_pos hread, ← readerTrace_log c t o]
  rcases tcpServerRecv_cases size i c t o with ⟨hnone, heq⟩ | ⟨r, hsome, heq⟩
  · rw [heq, hnone]
    simp
  rw [heq, hsome]
  rcases recvInto_cases i c (readerTrace c t o) r o with ⟨-, hcont⟩ | ⟨r', -, hgot, hfin⟩
  · rcases hcont.request with ⟨hgot, -, htrace⟩ | ⟨hgot, hcode, htrace, -⟩
    · rw [htrace]
      simp [hgot]
    · rw [htrace, Trace.record, parsedOn_parse]
      simp [hgot, hcode]
  · rw [hfin, tcpRequestFinish_parsedOn, Trace.record, parsedOn_parse]
    simp [hgot]

/-- What a step adds to the codes of the entry `e`. -/
lemma netStep_parsedOn {s : Net} (h : Resting s) (e : ℕ) (i : Input) :
    (∀ o, i = .dispatch o → s.crashed = false → s.cursor = some e →
      parsedOn e (netStep s i).trace.log =
        codesIn s.bufSize (s.conns e) s.trace o ++ parsedOn e s.trace.log) ∧
    ((∀ o, i = .dispatch o → ¬ (s.crashed = false ∧ s.cursor = some e)) →
      parsedOn e (netStep s i).trace.log = parsedOn e s.trace.log) := by
  rcases netStep_cases h i with ⟨hbatch, hnone⟩ | ⟨d, o, rfl, hcur, hc, -, hround⟩
  · rw [hbatch.trace]
    refine ⟨fun o hi hc hcur => ?_, fun _ => rfl⟩
    rw [hnone e o hi hcur] at hc
    cases hc
  · rw [hround.log, readConn_parsedOn]
    refine ⟨fun o' ho _ hcur' => ?_, fun hno => ?_⟩
    · rw [hcur] at hcur'
      cases hcur'
      cases ho
      rw [if_pos rfl]
    · have hne : d ≠ e := by
        rintro rfl
        exact hno o rfl ⟨hc, hcur⟩
      rw [if_neg hne, List.nil_append]

/-- Where no bytes are read nothing is said. -/
lemma codesIn_eq_nil {size : ℕ} {c : Conn} {t : Trace} {o : Outcomes}
    (h : ∀ segment ∈ readsIn size c t o, segment = []) : codesIn size c t o = [] := by
  unfold codesIn
  unfold readsIn at h
  split_ifs with hread
  · rw [if_pos hread] at h
    cases hr : reader size c t o with
    | none => rfl
    | some r =>
      have hgot : r.got o.read = [] := h _ (by simp [hr])
      simp [hgot]
  · rfl

/-! ## A request that reads a segment -/

/-- What a request that has nothing to send yet is answered. -/
lemma unsent_respone {r : Request} (h : r.response.bytes = [] ∧ r.response.sent = 0) :
    (tcpResponeGenerate r).response.unsent =
      replyTo r.protocol.type (if r.error ≠ .ok then errorText else okText) := by
  obtain ⟨hbytes, hsent⟩ := h
  unfold tcpResponeGenerate replyTo
  by_cases hput : r.protocol.type = .put
  · simp [hput, Response.unsent, hbytes, hsent]
  · rw [if_neg hput]
    split
    · contradiction
    · simp [Response.unsent, hbytes]

/-- The bytes of a segment go on from where the request stands. -/
lemma Request.Underway.run_append {first : ℕ} {r : Request} {got : List (List UInt8)} {ph : Phase}
    (h : r.Underway first got ph) (segment : List UInt8) :
    Machines.run advance .start (got.flatten ++ segment) = Machines.run advance ph segment :=
  run_append_of_ok h.run segment

/-- A segment after which the bytes can no longer become a request. -/
lemma Request.Underway.refused {first : ℕ} {r : Request} {got : List (List UInt8)} {ph : Phase}
    (h : r.Underway first got ph) {o : Outcomes} {e : Code} (hne : r.got o.read ≠ [])
    (hrun : Machines.run advance .start (got.flatten ++ r.got o.read) = .error e) :
    r.code o = e ∧ ∃ r', r.ends o = some r' ∧ (tcpResponeGenerate r').response.unsent =
      replyTo (typeRead .start (got.flatten ++ r.got o.read)) errorText := by
  rw [h.run_append] at hrun
  have hcode : r.code o = e := by
    have hfollow := parseChunk_follows o.layout h.laid.ne_nil h.follows (r.got o.read)
    rw [hrun] at hfollow
    exact hfollow
  have htype : (r.parsed o).protocol.type = typeRead ph (r.got o.read) :=
    parseChunk_error_type o.layout h.laid.ne_nil h.follows hrun
  obtain ⟨hok, hdone⟩ := advance_run_error hrun
  have hends : r.ends o = some { r.parsed o with error := e } := by
    unfold Request.ends
    rw [if_neg hne, hcode]
    cases e with
    | ok => contradiction
    | done => contradiction
    | _ => rfl
  refine ⟨hcode, _, hends, ?_⟩
  have hsend := @unsent_respone { r.parsed o with error := e } h.response
  rw [hsend, typeRead_append h.run, htype, if_pos hok]

/-- A segment that completes a request. -/
lemma Request.Underway.completed {first : ℕ} {r : Request} {got : List (List UInt8)}
    {ph ph' : Phase} {t : ReqType} (h : r.Underway first got ph) {o : Outcomes}
    (hne : r.got o.read ≠ [])
    (hrun : Machines.run advance .start (got.flatten ++ r.got o.read) = .ok ph')
    (hcomplete : ph'.completeType = some t) :
    r.code o = .done ∧ ∃ r', r.ends o = some r' ∧
      (tcpResponeGenerate r').response.unsent = replyTo t okText := by
  rw [h.run_append] at hrun
  have hfollow := parseChunk_follows o.layout h.laid.ne_nil h.follows (r.got o.read)
  rw [hrun] at hfollow
  obtain ⟨hdone, htype, -, -⟩ := hfollow.2 t hcomplete
  have hcode : r.code o = .done := hdone
  refine ⟨hcode, { r.parsed o with done := true }, by simp [Request.ends, hne, hcode], ?_⟩
  have hsend := @unsent_respone { r.parsed o with done := true } h.response
  have herror : (r.parsed o).error = .ok := h.error
  have htype' : (r.parsed o).protocol.type = t := htype
  rw [hsend, herror, htype']
  rfl

/-- A segment that leaves a request open. -/
lemma Request.Underway.continued {first : ℕ} {r : Request} {got : List (List UInt8)}
    {ph ph' : Phase} (h : r.Underway first got ph) {o : Outcomes} (hne : r.got o.read ≠ [])
    (hcut : Uncut first 0 .start (got.flatten ++ r.got o.read))
    (hrun : Machines.run advance .start (got.flatten ++ r.got o.read) = .ok ph')
    (hopen : ph'.completeType = none) :
    r.code o = .ok ∧ Request.Underway first
      { r.parsed o with buffers := chainBlock (r.parsed o).buffers }
      (got ++ [r.got o.read]) ph' := by
  have hall : (got ++ [r.got o.read]).flatten = got.flatten ++ r.got o.read := by simp
  have hsegment := hrun
  rw [h.run_append] at hsegment
  have hroom := got_length_le r o.read
  rw [h.laid.room] at hroom
  have hpos := List.length_pos_iff.mpr hne
  -- the read can only reach a border with its last byte
  have hborder : (r.got o.read).length = roomLeft first r.buffers → ph'.held = false := by
    intro hfull
    obtain ⟨j, hj⟩ := (h.laid.border_iff hpos hroom).mpr hfull
    apply hcut j (got.flatten ++ r.got o.read).length
    · rw [List.length_append]
      omega
    · rw [List.length_append]
      omega
    · exact le_refl _
    · rwa [List.take_length]
  obtain ⟨hcode, hfollows⟩ := follows_round o.layout h.laid h.follows hroom hsegment hopen hborder
  obtain ⟨-, hlaid, -, hleft⟩ := laid_round o.layout r.protocol h.laid hroom
  refine ⟨hcode, ?_, ?_, hall ▸ hrun, hopen, hfollows, h.response, h.error⟩
  · rw [hall, List.length_append]
    exact hlaid
  · change 0 < roomLeft first (chainBlock (parseChunk o.layout r.buffers r.protocol _).buffers)
    rw [hleft]
    split_ifs
    · decide
    · omega

/-! ## A round on the connection -/

/-- **A read of the client** does to its connection what the exchange does. -/
lemma Attended.hears {first e : ℕ} {s : Net} {got : List (List UInt8)} {o : Outcomes}
    (h : Attended first e s got) (hc : s.crashed = false) (hcur : s.cursor = some e)
    (ho : o.Serves) (hread : (s.conns e).activeEvents.read = true) {r : Request} {ph : Phase}
    (hr : reader first (s.conns e) s.trace o = some r) (hunder : r.Underway first got ph)
    (hgot : r.got o.read ≠ []) (written : List UInt8) (codes : List Code)
    (hcut : Exchange.Uncut first ⟨got.flatten, written, codes⟩ (r.got o.read)) :
    ∃ got', Attended first e (netStep s (.dispatch o)) got' ∧
      Exchange.hear ⟨got.flatten, written, codes⟩ (r.got o.read) =
        ⟨got'.flatten, written ++ writesIn s.bufSize e (s.conns e) s.trace o,
          codesIn s.bufSize (s.conns e) s.trace o ++ codes⟩ := by
  have hatt := h.attends
  have hcodes : codesIn s.bufSize (s.conns e) s.trace o = [r.code o] := by
    rw [h.size, codesIn, if_pos ⟨hread, hatt.handler⟩, hr]
    simp [hgot]
  -- a request that ends is answered and leaves the connection without one
  have hanswer {r' : Request} {reply : List UInt8} (hends : r.ends o = some r')
      (hreply : (tcpResponeGenerate r').response.unsent = reply) :
      Attended first e (netStep s (.dispatch o)) [] ∧
        writesIn s.bufSize e (s.conns e) s.trace o = reply := by
    obtain ⟨hconn, -, hwrites⟩ := hatt.reads hread (heard_last e hr hends ho.writes hatt.events)
    rw [← h.size] at hconn hwrites
    obtain ⟨hnext, -⟩ := h.settles hc hcur hconn (Or.inl ⟨rfl, rfl⟩)
    exact ⟨hnext, hwrites.trans hreply⟩
  rw [hcodes]
  cases hrun : Machines.run advance .start (got.flatten ++ r.got o.read) with
  | error c =>
    obtain ⟨hcode, r', hends, hreply⟩ := hunder.refused hgot hrun
    obtain ⟨hnext, hwrites⟩ := hanswer hends hreply
    refine ⟨[], hnext, ?_⟩
    simp only [Exchange.hear, hrun, hwrites, hcode]
    rfl
  | ok ph' =>
    cases hcomplete : ph'.completeType with
    | some t =>
      obtain ⟨hcode, r', hends, hreply⟩ := hunder.completed hgot hrun hcomplete
      obtain ⟨hnext, hwrites⟩ := hanswer hends hreply
      refine ⟨[], hnext, ?_⟩
      simp only [Exchange.hear, hrun, hcomplete, hwrites, hcode]
      rfl
    | none =>
      obtain ⟨hcode, hunder'⟩ := hunder.continued hgot hcut hrun hcomplete
      obtain ⟨hconn, -, hwrites⟩ := hatt.reads hread (heard_next e hr hgot hcode ho.chainAlloc)
      rw [← h.size] at hconn hwrites
      obtain ⟨hnext, -⟩ := h.settles hc hcur hconn (Or.inr ⟨_, ph', rfl, hunder'⟩)
      refine ⟨got ++ [r.got o.read], hnext, ?_⟩
      simp only [Exchange.hear, hrun, hcomplete, hwrites, hcode]
      simp

/-- A round on the client: no read, EAGAIN, or a read that the exchange hears. -/
lemma Attended.talks {first e : ℕ} {s : Net} {got : List (List UInt8)} {o : Outcomes}
    (h : Attended first e s got) (hfirst : 0 < first) (hc : s.crashed = false)
    (hcur : s.cursor = some e) (ho : o.Serves) (written : List UInt8) (codes : List Code)
    {reads : List (List UInt8)}
    (hreads : (readsIn s.bufSize (s.conns e) s.trace o).filter (fun c => c ≠ []) = reads)
    (hcut : Along Exchange.hear (Exchange.Uncut first) ⟨got.flatten, written, codes⟩ reads) :
    ∃ got', Attended first e (netStep s (.dispatch o)) got' ∧
      reads.foldl Exchange.hear ⟨got.flatten, written, codes⟩ =
        ⟨got'.flatten, written ++ writesIn s.bufSize e (s.conns e) s.trace o,
          codesIn s.bufSize (s.conns e) s.trace o ++ codes⟩ := by
  rcases h.round hfirst hc hcur ho with
    ⟨hnone, hwrites, hnext, -⟩ | ⟨hagain, hwrites, hnext⟩ | ⟨c, hne, hread, -⟩
  · have hcodes := @codesIn_eq_nil s.bufSize (s.conns e) s.trace o (by simp [hnone])
    rw [hnone] at hreads
    subst hreads
    exact ⟨got, hnext, by simp [hwrites, hcodes]⟩
  · have hcodes := @codesIn_eq_nil s.bufSize (s.conns e) s.trace o (by simp [hagain])
    rw [hagain] at hreads
    subst hreads
    exact ⟨got, hnext, by simp [hwrites, hcodes]⟩
  · rw [hread] at hreads
    have hone : reads = [c] := by
      rw [← hreads]
      simp [hne]
    subst hone
    -- the read was made, by the request that the connection has or gets
    have hactive : (s.conns e).activeEvents.read = true := by
      by_contra hno
      obtain ⟨-, hnil, -⟩ := h.attends.quiet hno e s.trace o
      rw [← h.size, hread] at hnil
      cases hnil
    obtain ⟨r, ph, hr, hunder⟩ := h.attends.reader hfirst ho s.trace
    have hgot : r.got o.read = c := by
      rw [h.size, readsIn, if_pos ⟨hactive, h.attends.handler⟩, hr] at hread
      exact List.singleton_inj.mp hread
    subst hgot
    obtain ⟨got', hnext, hhear⟩ :=
      h.hears hc hcur ho hactive hr hunder hne written codes hcut.1
    exact ⟨got', hnext, hhear⟩

/-! ## A dialogue -/

/-- The connection and the exchange agree: on the bytes of the request under way, on all
that has been written, and on what the parser has said, behind the codes `before`. -/
def Agreed (first e : ℕ) (before : List Code) (x : Session) (y : Exchange) : Prop :=
  ∃ got codes, Attended first e x.net got ∧ y = ⟨got.flatten, x.written, codes⟩ ∧
    parsedOn e x.net.trace.log = codes ++ before

lemma Agreed.step {first e : ℕ} {before : List Code} {x : Session} {y : Exchange} {i : Input}
    (hfirst : 0 < first) (h : Agreed first e before x y) (hi : PollsValid x.net i)
    (ho : ServesOn e x.net i) {more : List (List UInt8)}
    (hmore : (x.step e i).segments = x.segments ++ more)
    (hcut : Along Exchange.hear (Exchange.Uncut first) y more) :
    Agreed first e before (x.step e i) (more.foldl Exchange.hear y) := by
  obtain ⟨got, codes, hatt, rfl, hcodes⟩ := h
  obtain ⟨hround, helsewhere⟩ := netStep_parsedOn hatt.resting e i
  by_cases hhere : ∀ o, i = .dispatch o → ¬ (x.net.crashed = false ∧ x.net.cursor = some e)
  · obtain ⟨hnext, -⟩ := hatt.elsewhere hi hhere
    rw [Session.step_elsewhere hhere] at hmore ⊢
    have hnil : more = [] := by
      change x.segments = x.segments ++ more at hmore
      simpa using hmore
    subst hnil
    exact ⟨got, codes, hnext, rfl, (helsewhere hhere).trans hcodes⟩
  · push Not at hhere
    obtain ⟨o, rfl, hc, hcur⟩ := hhere
    rw [Session.step_round o hc hcur] at hmore ⊢
    have hreads : (readsIn x.net.bufSize (x.net.conns e) x.net.trace o).filter
        (fun c => c ≠ []) = more := by
      simp only [Session.segments, List.filter_append] at hmore
      exact List.append_cancel_left hmore
    obtain ⟨got', hnext, hhear⟩ :=
      hatt.talks hfirst hc hcur (ho o rfl hcur) x.written codes hreads hcut
    refine ⟨got', _, hnext, hhear, ?_⟩
    rw [hround o rfl hc hcur, hcodes, List.append_assoc]

lemma Agreed.run {first e : ℕ} (hfirst : 0 < first) {s : Net} (inputs : List Input)
    (hatt : Attended first e s [])
    (henv : Along netStep (fun s i => PollsValid s i ∧ ServesOn e s i) s inputs)
    (hcut : Along Exchange.hear (Exchange.Uncut first) ⟨[], [], []⟩
      (inputs.foldl (Session.step e) ⟨s, [], []⟩).segments) :
    Agreed first e (parsedOn e s.trace.log) (inputs.foldl (Session.step e) ⟨s, [], []⟩)
      ((inputs.foldl (Session.step e) ⟨s, [], []⟩).segments.foldl Exchange.hear ⟨[], [], []⟩) := by
  have henv' : Along (Session.step e) (fun x i => PollsValid x.net i ∧ ServesOn e x.net i)
      ⟨s, [], []⟩ inputs :=
    (along_map (f := Session.net) (P := fun s i => PollsValid s i ∧ ServesOn e s i)
      (Session.step_net e)).mpr henv
  clear henv
  -- from the end, since the segments are those of the whole run
  induction inputs using List.reverseRecOn with
  | nil => exact ⟨[], [], hatt, rfl, rfl⟩
  | append_singleton is i ih =>
    obtain ⟨hbefore, hlast, -⟩ := along_append.mp henv'
    rw [List.foldl_append, List.foldl_cons, List.foldl_nil] at hcut ⊢
    obtain ⟨more, hmore⟩ := Session.segments_step e (is.foldl (Session.step e) ⟨s, [], []⟩) i
    rw [← hmore] at hcut ⊢
    obtain ⟨hfront, hback⟩ := along_append.mp hcut
    rw [List.foldl_append]
    exact (ih hfront hbefore).step hfirst hlast.1 hlast.2 hmore.symm hback

/-- **A connection answers as the exchange does**, for every byte string and every way in
which it is read. At every point of every run from the acceptance of a client, whatever
the other connections do, what was written is the answer to what was read, the parser has
said of each read what the exchange says, and the connection is not closed; with small
buffers the process goes on. -/
theorem dialogue (bufSize e : ℕ) (s : Net) (inputs : List Input)
    (haccepted : JustAccepted PollsValid bufSize e s)
    (henv : Along netStep (fun s i => PollsValid s i ∧ ServesOn e s i) s inputs)
    (hcut : Along Exchange.hear (Exchange.Uncut (requestBufferSize bufSize)) ⟨[], [], []⟩
      (inputs.foldl (Session.step e) ⟨s, [], []⟩).segments) :
    let x := inputs.foldl (Session.step e) ⟨s, [], []⟩
    let y := x.segments.foldl Exchange.hear ⟨[], [], []⟩
    x.written = y.written ∧
      parsedOn e x.net.trace.log = y.codes ++ parsedOn e s.trace.log ∧
      e ∈ x.net.taken ∧ (x.net.conns e).close = false ∧
      (requestBufferSize bufSize + bufferHeader ≤ maxSizeOfChunk →
        x.net.trace.aborted = false) := by
  obtain ⟨hatt, -⟩ := haccepted.attended
  obtain ⟨got, codes, hend, heq, hcodes⟩ :=
    Agreed.run (requestBufferSize_pos bufSize) inputs hatt henv hcut
  exact ⟨by rw [heq], by rw [heq]; exact hcodes, hend.taken, hend.attends.rested.close,
    haccepted.spared henv⟩

/-- What is shorter than the first block is not cut. -/
lemma uncut_of_length_lt {first : ℕ} {text : List UInt8} (h : text.length < first) :
    Uncut first 0 .start text := by
  intro j n hj hn hlen
  omega

/-- Two requests arrive in one read, then one more: the first two are refused together. -/
def twoAtOnce : List Input :=
  [.poll [(1, .readOnly)], .dispatch (outcomes none (putBytes ++ putBytes) [] []),
    .poll [(1, .readOnly)], .dispatch (outcomes none putBytes [] [])]

lemma servesOn_read (s : Net) {data : List UInt8} (hdata : data ≠ []) :
    ServesOn 1 s (.dispatch (outcomes none data [] [])) := by
  intro o ho _
  cases ho
  exact serves_outcomes hdata (by simp [Writes])

lemma servesOn_poll (s : Net) (reports : List (ℕ × Mask)) : ServesOn 1 s (.poll reports) :=
  fun _ ho => by cases ho

theorem dialogue_two_at_once :
    (twoAtOnce.foldl (Session.step 1) ⟨firstClient 1024, [], []⟩).written =
      errorText ++ okText := by
  have hsegments : (twoAtOnce.foldl (Session.step 1) ⟨firstClient 1024, [], []⟩).segments =
      [putBytes ++ putBytes, putBytes] := by decide
  have hdialogue := dialogue 1024 1 (firstClient 1024) twoAtOnce (firstClient_accepted 1024)
    ⟨⟨reported_one 5 .readOnly rfl (by decide) (by decide), servesOn_poll _ _⟩,
      ⟨trivial, servesOn_read _ (by decide)⟩,
      ⟨reported_one 5 .readOnly rfl (by decide) (by decide), servesOn_poll _ _⟩,
      ⟨trivial, servesOn_read _ (by decide)⟩, trivial⟩
  rw [hsegments] at hdialogue
  refine (hdialogue ⟨?_, ?_, trivial⟩).1.trans (by decide)
  · exact uncut_of_length_lt (by decide)
  · exact uncut_of_length_lt (by decide)

/-! ## Requests in one read -/

end Xpipe
