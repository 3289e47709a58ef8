import Xpipe.Releases

/-!
# One request object, one request

Once the parser has ended a request, with DONE or an error, the request is to be
answered and released, and the next byte of the connection belongs to a new one.
The code releases it when the answer is sent whole in the same call; an answer
that stops at EAGAIN leaves the request on its connection, and bytes that are
read then go to the parser with it. `Serving` is what holds of a connection as
long as that does not happen.
-/
namespace Xpipe
open Linked Runs

/-- The code of the last call of the parser on the entry `e`; OK before the first. -/
def lastCode (e : ℕ) : List Event → Code
  | [] => .ok
  | .parse i _ code :: log => if i = e then code else lastCode e log
  | .release _ _ :: log => lastCode e log

/-- A call of the parser on the request of the pool `p` returned OK. -/
def Event.OkFor (p : ℕ) : Event → Prop
  | .parse _ r code => r.pool = p → code = .ok
  | .release _ _ => True

instance (p : ℕ) : (ev : Event) → Decidable (ev.OkFor p)
  | .parse _ r code => inferInstanceAs (Decidable (r.pool = p → code = .ok))
  | .release _ _ => inferInstanceAs (Decidable True)

/-- So far the parser was called on the request of the pool `p` with OK only. -/
def OnlyOk (p : ℕ) (log : List Event) : Prop := ∀ ev ∈ log, ev.OkFor p

instance (p : ℕ) (log : List Event) : Decidable (OnlyOk p log) :=
  inferInstanceAs (Decidable (∀ ev ∈ log, ev.OkFor p))

/-- The parser is never called on a request that it has ended, and after the end
of a request the next call on the connection is on a new one. -/
def EachOnce (size : ℕ) : List Event → Prop
  | [] => True
  | .parse e r _ :: log => OnlyOk r.pool log ∧
      (lastCode e log ≠ .ok → r = newRequest size r.pool) ∧ EachOnce size log
  | .release _ _ :: log => EachOnce size log

instance decidableEachOnce (size : ℕ) : (log : List Event) → Decidable (EachOnce size log)
  | [] => .isTrue trivial
  | .parse e r _ :: log =>
    have := decidableEachOnce size log
    inferInstanceAs (Decidable (OnlyOk r.pool log ∧
      (lastCode e log ≠ .ok → r = newRequest size r.pool) ∧ EachOnce size log))
  | .release _ _ :: log => decidableEachOnce size log

/-- A request that `tcp_request_process` has given to `tcp_request_finish`. -/
def Request.Answered (r : Request) : Prop := r.done = true ∨ r.error ≠ .ok

/-- A request that is still being read. -/
structure Request.Open (size : ℕ) (log : List Event) (e : ℕ) (r : Request) : Prop where
  finish : r.finish = false
  unanswered : ¬ r.Answered
  parses : OnlyOk r.pool log
  new : lastCode e log ≠ .ok → r = newRequest size r.pool

/-- A request that is answered: the parser has ended it, or it has no room left. -/
structure Request.Closed (log : List Event) (r : Request) : Prop where
  answered : r.Answered
  parsed : ¬ OnlyOk r.pool log ∨ r.room = 0

/-- A connection whose request is read or answered; only an answered one waits for
the write event. -/
structure Serving (size : ℕ) (t : Trace) (e : ℕ) (c : Conn) : Prop where
  waits : c.writeEventHandler ≠ none ∨ c.addEvents ≠ .none →
    ∃ r, c.request = some r ∧ r.Answered
  request : ∀ r, c.request = some r →
    r.pool < t.fresh ∧ (r.Closed t.log ∨ r.Open size t.log e)

/-- Every request the parser was called on is in a pool that was made. -/
def PoolsBelow (t : Trace) : Prop := ∀ e r code, Event.parse e r code ∈ t.log → r.pool < t.fresh

/-- The pool `p` is that of the request of `c`, or newer than `n`. -/
def Conn.Owns (c : Conn) (n p : ℕ) : Prop := (∃ r, c.request = some r ∧ r.pool = p) ∨ n ≤ p

/-- Events of the entry `e` about requests that meet `Q`. -/
def Event.Of (e : ℕ) (Q : ℕ → Prop) : Event → Prop
  | .parse i r _ => i = e ∧ Q r.pool
  | .release _ _ => True

/-- From `t` to `t'` the log has grown by events of `e` about requests that meet `Q`. -/
def LogGrows (e : ℕ) (Q : ℕ → Prop) (t t' : Trace) : Prop :=
  t.fresh ≤ t'.fresh ∧ ∃ evs, t'.log = evs ++ t.log ∧ ∀ ev ∈ evs, ev.Of e Q

/-! ## Logs that grow -/

lemma OnlyOk.of_append {p : ℕ} {evs log : List Event} (h : OnlyOk p (evs ++ log)) :
    OnlyOk p log := by
  intro ev hin
  exact h ev (List.mem_append_right evs hin)

lemma OnlyOk.append {p e : ℕ} {Q : ℕ → Prop} {evs log : List Event} (h : OnlyOk p log)
    (hevs : ∀ ev ∈ evs, ev.Of e Q) (hother : ¬ Q p) : OnlyOk p (evs ++ log) := by
  intro ev hin
  rcases List.mem_append.mp hin with hin | hin
  · cases ev with
    | parse i r code =>
      have hq : Q r.pool := (hevs _ hin).2
      exact fun hp => absurd (hp ▸ hq) hother
    | release r close => trivial
  · exact h ev hin

lemma lastCode_append {i e : ℕ} {Q : ℕ → Prop} {evs : List Event} (log : List Event)
    (hne : i ≠ e) (hevs : ∀ ev ∈ evs, ev.Of e Q) : lastCode i (evs ++ log) = lastCode i log := by
  induction evs with
  | nil => rfl
  | cons ev evs ih =>
    have hrest := ih (fun ev' hin => hevs ev' (List.mem_cons_of_mem _ hin))
    have hhead := hevs ev (by simp)
    cases ev with
    | parse j r code =>
      have hj : j ≠ i := by
        rw [hhead.1]
        exact hne.symm
      rw [List.cons_append, lastCode, if_neg hj, hrest]
    | release r close => rw [List.cons_append, lastCode, hrest]

/-- Events of other entries about other requests leave a connection as it is. -/
lemma Serving.other {size e i : ℕ} {Q : ℕ → Prop} {t t' : Trace} {c : Conn}
    (h : Serving size t i c) (hne : i ≠ e) (hgrows : LogGrows e Q t t')
    (hother : ∀ r, c.request = some r → ¬ Q r.pool) : Serving size t' i c := by
  obtain ⟨hfresh, evs, hlog, hevs⟩ := hgrows
  refine ⟨h.waits, fun r hr => ?_⟩
  obtain ⟨hpool, hstate⟩ := h.request r hr
  refine ⟨by omega, ?_⟩
  rw [hlog]
  rcases hstate with hclosed | hopen
  · left
    refine ⟨hclosed.answered, hclosed.parsed.imp_left (fun hbad hok => hbad hok.of_append)⟩
  · right
    refine ⟨hopen.finish, hopen.unanswered, hopen.parses.append hevs (hother r hr), ?_⟩
    rw [lastCode_append t.log hne hevs]
    exact hopen.new

/-- A connection is as it was when only new pools are made. -/
lemma Serving.mono {size e : ℕ} {t t' : Trace} {c : Conn} (h : Serving size t e c)
    (hfresh : t.fresh ≤ t'.fresh) (hlog : t'.log = t.log) : Serving size t' e c := by
  refine ⟨h.waits, fun r hr => ?_⟩
  obtain ⟨hpool, hstate⟩ := h.request r hr
  rw [hlog]
  exact ⟨by omega, hstate⟩

/-! ## Reading -/

/-- What a read leaves behind on the entry `e`. -/
structure ReadOnce (size e : ℕ) (c : Conn) (t : Trace) (c' : Conn) (t' : Trace) : Prop where
  serving : Serving size t' e c'
  once : EachOnce size t'.log
  below : PoolsBelow t'
  grows : LogGrows e (c.Owns t.fresh) t t'
  request : ∀ r, c'.request = some r → c.Owns t.fresh r.pool

/-- The request that is read into. -/
structure Reading (size e : ℕ) (c : Conn) (t t₁ : Trace) (r : Request) : Prop where
  own : c.request = some r ∨ c.request = none ∧ ¬ r.Answered
  fresh : t.fresh ≤ t₁.fresh
  log : t₁.log = t.log
  pool : r.pool < t₁.fresh
  owns : c.Owns t.fresh r.pool
  state : r.Closed t₁.log ∨ r.Open size t₁.log e

lemma reader_reading {size e : ℕ} {c : Conn} {t : Trace} {o : Outcomes} {r : Request}
    (hs : Serving size t e c) (hb : PoolsBelow t) (hr : reader size c t o = some r) :
    Reading size e c t (readerTrace c t o) r := by
  have hlog := readerTrace_log c t o
  unfold reader at hr
  split at hr
  · rename_i r₀ hreq
    cases hr
    obtain ⟨hpool, hstate⟩ := hs.request r hreq
    have htrace : readerTrace c t o = t := by simp [readerTrace, hreq]
    rw [htrace]
    exact ⟨Or.inl hreq, le_refl _, rfl, hpool, Or.inl ⟨r, hreq, rfl⟩, hstate⟩
  · rename_i hreq
    split_ifs at hr with hinit
    cases hr
    have hfresh : (readerTrace c t o).fresh = t.fresh + 1 := by
      rw [Bool.and_eq_true] at hinit
      simp [readerTrace, hreq, hinit.1, Trace.createPool]
    have hnew : ¬ (newRequest size t.fresh).Answered := by simp [Request.Answered, newRequest]
    refine ⟨Or.inr ⟨hreq, hnew⟩, by omega, hlog, ?_, Or.inr (le_refl _),
      Or.inr ⟨rfl, hnew, ?_, fun _ => rfl⟩⟩
    · rw [hfresh]
      exact Nat.lt_succ_self _
    · -- no call can have been on a request of a pool that is new
      intro ev hin
      rw [hlog] at hin
      cases ev with
      | parse i r code => exact fun hp => absurd hp (hb i r code hin).ne
      | release r close => trivial

/-- The connection of a request that is still read waits for nothing. -/
lemma Reading.idle {size e : ℕ} {c : Conn} {t t₁ : Trace} {r : Request}
    (h : Reading size e c t t₁ r) (hs : Serving size t e c) (hopen : ¬ r.Answered) :
    c.writeEventHandler = none ∧ c.addEvents = .none := by
  by_contra hbusy
  rw [not_and_or] at hbusy
  obtain ⟨r₀, hreq, hans⟩ := hs.waits hbusy
  rcases h.own with hown | ⟨hown, -⟩
  · rw [hown] at hreq
    cases hreq
    exact hopen hans
  · rw [hown] at hreq
    cases hreq

lemma PoolsBelow.mono {t t' : Trace} (h : PoolsBelow t) (hfresh : t.fresh ≤ t'.fresh)
    (hlog : t'.log = t.log) : PoolsBelow t' := by
  intro e r code hin
  rw [hlog] at hin
  exact (h e r code hin).trans_le hfresh

/-- The parser is called on a request that is read: the log, without what is
known of the connection. -/
lemma Reading.parse {size e : ℕ} {c : Conn} {t t₁ : Trace} {r : Request}
    (h : Reading size e c t t₁ r) (hb : PoolsBelow t) (ho : EachOnce size t.log)
    (hopen : r.Open size t₁.log e) (code : Code) {t₂ : Trace} {evs : List Event}
    (hfresh : t₂.fresh = t₁.fresh) (hlog : t₂.log = evs ++ Event.parse e r code :: t₁.log)
    (hevs : ∀ ev ∈ evs, ∃ x b, ev = .release x b) :
    EachOnce size t₂.log ∧ PoolsBelow t₂ ∧ LogGrows e (c.Owns t.fresh) t t₂ := by
  refine ⟨?_, ?_, ?_⟩
  · have hparse : EachOnce size (Event.parse e r code :: t₁.log) :=
      ⟨hopen.parses, hopen.new, h.log ▸ ho⟩
    rw [hlog]
    clear hlog
    induction evs with
    | nil => exact hparse
    | cons ev evs ih =>
      obtain ⟨x, b, rfl⟩ := hevs ev (by simp)
      exact ih (fun ev' hin => hevs ev' (List.mem_cons_of_mem _ hin))
  · intro i r' code' hin
    rw [hlog, List.mem_append, List.mem_cons] at hin
    rw [hfresh]
    rcases hin with hin | hin | hin
    · obtain ⟨x, b, hbad⟩ := hevs _ hin
      cases hbad
    · cases hin
      exact h.pool
    · rw [h.log] at hin
      exact (hb i r' code' hin).trans_le h.fresh
  · refine ⟨by rw [hfresh]; exact h.fresh, evs ++ [Event.parse e r code], ?_, fun ev hin => ?_⟩
    · rw [hlog, h.log, List.append_assoc]
      rfl
    · rcases List.mem_append.mp hin with hin | hin
      · obtain ⟨x, b, rfl⟩ := hevs _ hin
        trivial
      · obtain rfl := List.mem_singleton.mp hin
        exact ⟨rfl, h.owns⟩

/-- A read that does not end the request. -/
lemma Reading.continues {size e : ℕ} {c : Conn} {t t₁ : Trace} {r : Request} {o : Outcomes}
    {c' : Conn} {t' : Trace} (h : Reading size e c t t₁ r) (hs : Serving size t e c)
    (hb : PoolsBelow t) (ho : EachOnce size t.log) (hquiet : r.Answered → r.got o.read = [])
    (hcont : Continues e c t₁ r o c' t') : ReadOnce size e c t c' t' := by
  rcases hcont.request with ⟨-, hreq, rfl⟩ | ⟨hgot, -, rfl, hreq⟩
  · refine ⟨⟨?_, ?_⟩, h.log ▸ ho, hb.mono h.fresh h.log, ⟨h.fresh, [], h.log, by simp⟩, ?_⟩
    · rw [hcont.handler, hcont.addEvents, hreq]
      intro hwait
      obtain ⟨r₀, hreq₀, hans⟩ := hs.waits hwait
      rcases h.own with hown | ⟨hown, -⟩
      · rw [hown] at hreq₀
        cases hreq₀
        exact ⟨r, rfl, hans⟩
      · rw [hown] at hreq₀
        cases hreq₀
    · intro r' hr'
      rw [hreq] at hr'
      cases hr'
      exact ⟨h.pool, h.state⟩
    · intro r' hr'
      rw [hreq] at hr'
      cases hr'
      exact h.owns
  · have hopen : r.Open size t₁.log e := by
      rcases h.state with hclosed | hopen
      · exact absurd (hquiet hclosed.answered) hgot
      · exact hopen
    obtain ⟨hidle, hadd⟩ := h.idle hs hopen.unanswered
    obtain ⟨honce, hbelow, hgrows⟩ := @Reading.parse _ _ _ _ _ _ h hb ho hopen .ok
      (t₁.record (.parse e r .ok)) [] rfl rfl (by simp)
    refine ⟨⟨?_, ?_⟩, honce, hbelow, hgrows, ?_⟩
    · rw [hcont.handler, hcont.addEvents, hidle, hadd]
      simp
    · intro r' hr'
      rw [hreq] at hr'
      cases hr'
      refine ⟨h.pool, Or.inr ⟨hopen.finish, hopen.unanswered, ?_, ?_⟩⟩
      · intro ev hin
        rcases List.mem_cons.mp hin with rfl | hin
        · exact fun _ => rfl
        · exact hopen.parses ev hin
      · simp [Trace.record, lastCode]
    · intro r' hr'
      rw [hreq] at hr'
      cases hr'
      exact h.owns

lemma room_of_lastFull {r : Request} (h : lastFull r.buffers = true) : r.room = 0 := by
  unfold lastFull at h
  unfold Request.room
  cases hb : r.buffers[lastIndex r.buffers]? with
  | none => rfl
  | some b =>
    rw [hb] at h
    have hfull : b.bytes.length = b.size := by simpa [Buffer.full] using h
    simp [Buffer.room, hfull]

/-- A request that is answered without an end of the parser has no room left. -/
lemma ends_room {r r' : Request} {o : Outcomes} (h : r.ends o = some r')
    (hcode : r.code o = .ok) : r'.room = 0 := by
  unfold Request.ends at h
  simp only [hcode] at h
  split_ifs at h with hgot hfull
  cases h
  rw [Bool.and_eq_true] at hfull
  exact @room_of_lastFull { r.parsed o with error := .error } hfull.1

/-- The request that `tcp_request_finish` works on, as it is left on the connection. -/
lemma delivered_closed {r r' : Request} {o : Outcomes} {log : List Event} {e : ℕ}
    (h : r.ends o = some r') (ws : List WriteResult) :
    (r'.delivered ws).Closed (Event.parse e r (r.code o) :: log) ∧
      (r'.delivered ws).pool = r.pool := by
  obtain ⟨hpool, -, hdone, herror⟩ := tcpResponeGenerate_keeps r'
  obtain ⟨d, err, hr', hans⟩ := ends_eq h
  have hsame : (r'.delivered ws).pool = r.pool := by
    unfold Request.delivered
    rw [hpool, hr']
    rfl
  have hbuffers : (r'.delivered ws).buffers = r'.buffers := by
    unfold Request.delivered tcpResponeGenerate
    split
    · rfl
    · rfl
  refine ⟨⟨?_, ?_⟩, hsame⟩
  · unfold Request.Answered Request.delivered
    rw [hdone, herror, hr']
    exact hans
  · by_cases hcode : r.code o = .ok
    · right
      unfold Request.room
      rw [hbuffers]
      exact ends_room h hcode
    · left
      intro hok
      exact hcode (hok (.parse e r (r.code o)) (by simp) hsame.symm)

/-- A read that ends the request. -/
lemma Reading.finish {size e : ℕ} {c : Conn} {t t₁ : Trace} {r r' : Request} {o : Outcomes}
    (h : Reading size e c t t₁ r) (hs : Serving size t e c) (hb : PoolsBelow t)
    (ho : EachOnce size t.log) (hopen : r.Open size t₁.log e) (hends : r.ends o = some r') :
    ReadOnce size e c t
      (tcpRequestFinish { c with request := some r } (t₁.record (.parse e r (r.code o))) r'
        o.readWrites).1
      (tcpRequestFinish { c with request := some r } (t₁.record (.parse e r (r.code o))) r'
        o.readWrites).2 := by
  obtain ⟨hidle, hadd⟩ := h.idle hs hopen.unanswered
  obtain ⟨hclosed, hpool⟩ := @delivered_closed r r' o t₁.log e hends o.readWrites
  have hfinish : r'.finish = false := by
    obtain ⟨d, err, hr', -⟩ := ends_eq hends
    rw [hr']
    exact hopen.finish
  rcases tcpRequestFinish_cases { c with request := some r } (t₁.record (.parse e r (r.code o))) r'
    o.readWrites with ⟨-, -, heq⟩ | ⟨-, hfin, -⟩ | ⟨-, heq⟩ | ⟨-, -, heq⟩
  · obtain ⟨honce, hbelow, hgrows⟩ := @Reading.parse _ _ _ _ _ _ h hb ho hopen (r.code o)
      (t₁.record (.parse e r (r.code o))) [] rfl rfl (by simp)
    rw [heq]
    refine ⟨⟨fun _ => ⟨_, rfl, hclosed.answered⟩, ?_⟩, honce, hbelow, hgrows, ?_⟩
    · intro x hx
      cases hx
      refine ⟨?_, Or.inl hclosed⟩
      rw [hpool]
      exact h.pool
    · intro x hx
      cases hx
      rw [hpool]
      exact h.owns
  · rw [hfinish] at hfin
    cases hfin
  · obtain ⟨honce, hbelow, hgrows⟩ := @Reading.parse _ _ _ _ _ _ h hb ho hopen (r.code o)
      (((t₁.record (.parse e r (r.code o))).record (.release _ true)).destroyRequest r')
      [.release { r'.delivered o.readWrites with finish := true } true] rfl rfl
      (fun ev hin => ⟨_, _, List.mem_singleton.mp hin⟩)
    rw [heq]
    refine ⟨⟨?_, fun x hx => by cases hx⟩, honce, hbelow, hgrows, fun x hx => by cases hx⟩
    simp [hidle, hadd]
  · obtain ⟨honce, hbelow, hgrows⟩ := @Reading.parse _ _ _ _ _ _ h hb ho hopen (r.code o)
      (((t₁.record (.parse e r (r.code o))).record (.release _ c.close)).destroyRequest r')
      [.release { r'.delivered o.readWrites with finish := true } c.close] rfl rfl
      (fun ev hin => ⟨_, _, List.mem_singleton.mp hin⟩)
    rw [heq]
    refine ⟨⟨?_, fun x hx => by cases hx⟩, honce, hbelow, hgrows, fun x hx => by cases hx⟩
    simp [hidle, hadd]

/-- **A read that gives no bytes to an answered request.** -/
lemma tcpServerRecv_once {size e : ℕ} {c : Conn} {t : Trace} {o : Outcomes}
    (hs : Serving size t e c) (hb : PoolsBelow t) (ho : EachOnce size t.log)
    (hquiet : ∀ r, c.request = some r → r.Answered → r.got o.read = []) :
    ReadOnce size e c t (tcpServerRecv size e c t o).1 (tcpServerRecv size e c t o).2 := by
  have hlog := readerTrace_log c t o
  rcases tcpServerRecv_cases size e c t o with ⟨-, heq⟩ | ⟨r, hr, heq⟩
  · have hfresh : t.fresh ≤ (readerTrace c t o).fresh := by
      unfold readerTrace
      split
      · exact le_refl _
      · split_ifs
        · exact Nat.le_succ _
        · exact le_refl _
    rw [heq]
    exact ⟨hs.mono hfresh hlog, hlog ▸ ho, hb.mono hfresh hlog, ⟨hfresh, [], hlog, by simp⟩,
      fun r hr => Or.inl ⟨r, hr, rfl⟩⟩
  · have hreading := reader_reading hs hb hr
    have hclosed : r.Answered → r.got o.read = [] := by
      intro hans
      rcases hreading.own with hsome | ⟨-, hopen⟩
      · exact hquiet r hsome hans
      · exact absurd hans hopen
    rw [heq]
    rcases recvInto_cases e c (readerTrace c t o) r o with ⟨-, hcont⟩ | ⟨r', hends, hgot, hfin⟩
    · exact hreading.continues hs hb ho hclosed hcont
    · rw [hfin]
      refine hreading.finish hs hb ho ?_ hends
      rcases hreading.state with hbad | hopen
      · exact absurd (hclosed hbad.answered) hgot
      · exact hopen

/-- Bytes that are read are given to the parser. -/
lemma tcpServerRecv_parses {size e : ℕ} {c : Conn} {t : Trace} {o : Outcomes} {r : Request}
    (hreq : c.request = some r) (hgot : r.got o.read ≠ []) :
    ∃ evs, (tcpServerRecv size e c t o).2.log =
      evs ++ Event.parse e r (r.code o) :: t.log := by
  have heq : tcpServerRecv size e c t o = recvInto e c t r o := by simp [tcpServerRecv, hreq]
  rw [heq]
  rcases recvInto_cases e c t r o with ⟨-, hcont⟩ | ⟨r', -, -, hfin⟩
  · rcases hcont.request with ⟨hnone, -⟩ | ⟨-, hcode, htrace, -⟩
    · exact absurd hnone hgot
    · exact ⟨[], by rw [htrace, hcode]; rfl⟩
  · rw [hfin]
    rcases tcpRequestFinish_cases { c with request := some r } (t.record (.parse e r (r.code o))) r'
      o.readWrites with ⟨-, -, heq⟩ | ⟨-, -, heq⟩ | ⟨-, heq⟩ | ⟨-, -, heq⟩
    · exact ⟨[], by rw [heq]; rfl⟩
    · exact ⟨[_], by rw [heq]; rfl⟩
    · exact ⟨[_], by rw [heq]; rfl⟩
    · exact ⟨[_], by rw [heq]; rfl⟩

lemma EachOnce.of_append {size : ℕ} {evs log : List Event} (h : EachOnce size (evs ++ log)) :
    EachOnce size log := by
  induction evs with
  | nil => exact h
  | cons ev evs ih =>
    cases ev with
    | parse e r code => exact ih h.2.2
    | release r close => exact ih h

/-! ## The rest of a round -/

/-- A send leaves an answered request answered. -/
lemma Serving.send {size e : ℕ} {t : Trace} {c : Conn} (h : Serving size t e c)
    (hhandler : c.writeEventHandler ≠ none) (ws : List WriteResult) :
    Serving size t e (tcpServerSend c ws) ∧
      ∀ r, (tcpServerSend c ws).request = some r → ∃ r₀, c.request = some r₀ ∧ r₀.pool = r.pool := by
  obtain ⟨r, hreq, hans⟩ := h.waits (Or.inl hhandler)
  obtain ⟨hpool, hstate⟩ := h.request r hreq
  have hclosed : r.Closed t.log := by
    rcases hstate with hclosed | hopen
    · exact hclosed
    · exact absurd hans hopen.unanswered
  obtain ⟨f, hsent⟩ := tcpServerSend_request hreq ws
  have hclosed' :
      Request.Closed t.log { r with response := (sendLoop r.response ws).1, finish := f } :=
    ⟨hclosed.answered, hclosed.parsed⟩
  refine ⟨⟨fun _ => ⟨_, hsent, hclosed'.answered⟩, fun x hx => ?_⟩, fun x hx => ?_⟩
  · rw [hsent] at hx
    cases hx
    exact ⟨hpool, Or.inl hclosed'⟩
  · rw [hsent] at hx
    cases hx
    exact ⟨r, hreq, rfl⟩

lemma Serving.settle {size e : ℕ} {t : Trace} {c c' : Conn} (h : Serving size t e c)
    (hset : Settled (deadConn c) c') : Serving size t e c' ∧ c'.request = c.request := by
  rcases hset with rfl | rfl
  · refine ⟨⟨fun hwait => ?_, h.request⟩, rfl⟩
    rcases hwait with hwait | hwait
    · exact h.waits (Or.inl hwait)
    · exact absurd rfl hwait
  · refine ⟨⟨fun hwait => ?_, h.request⟩, rfl⟩
    rcases hwait with hwait | hwait
    · refine h.waits ?_
      by_cases hadd : c.addEvents = .none
      · left
        simpa [Conn.armed, hadd, Mask.none, deadConn] using hwait
      · exact Or.inr hadd
    · exact absurd rfl hwait

/-- The server as long as no bytes are given to an answered request. -/
structure ParsingOnce (size : ℕ) (s : Net) : Prop where
  resting : Resting s
  bufSize : s.bufSize = size
  once : EachOnce size s.trace.log
  below : PoolsBelow s.trace
  serving : s.crashed = false → ∀ e ∈ s.taken, Serving size s.trace e (s.conns e)
  distinct : s.crashed = false → ∀ i ∈ s.taken, ∀ j ∈ s.taken, ∀ r r',
    (s.conns i).request = some r → (s.conns j).request = some r' → r.pool = r'.pool → i = j

/-- A round whose read gives bytes to a request that is already answered. -/
def ReadsAnswered (s : Net) : Input → Prop
  | .poll _ => False
  | .dispatch o => s.crashed = false ∧ ∃ e, s.cursor = some e ∧
      (s.conns e).activeEvents.read = true ∧ (s.conns e).readEventHandler = some .recv ∧
      ∃ r, (s.conns e).request = some r ∧ r.Answered ∧ r.got o.read ≠ []

/-- The connection of a round after the write event. -/
lemma round_serving {size e : ℕ} {c : Conn} {t : Trace} {o : Outcomes}
    (hread : ReadOnce size e c t (readConn size e c t o).1 (readConn size e c t o).2)
    (hcall : ¬ (c.activeEvents.write = true ∧
      (readConn size e c t o).1.writeEventHandler = none)) :
    Serving size (readConn size e c t o).2 e (writeConn (readConn size e c t o).1 o) ∧
      ∀ r, (writeConn (readConn size e c t o).1 o).request = some r → c.Owns t.fresh r.pool := by
  unfold writeConn
  rw [readConn_activeEvents]
  split_ifs with hact
  · obtain ⟨hserving, hsame⟩ := hread.serving.send (fun hnone => hcall ⟨hact, hnone⟩) o.writeWrites
    refine ⟨hserving, fun r hr => ?_⟩
    obtain ⟨r₀, hr₀, hpool⟩ := hsame r hr
    rw [← hpool]
    exact hread.request r₀ hr₀
  · exact ⟨hread.serving, hread.request⟩

/-- A round that gives no bytes to an answered request keeps the invariant. -/
lemma ParsingOnce.round {size e : ℕ} {s s' : Net} {o : Outcomes} (h : ParsingOnce size s)
    (hc : s.crashed = false) (he : e ∈ s.taken) (hround : Round e o s s') (hrest : Resting s')
    (hread : ReadOnce size e (s.conns e) s.trace
      (readConn size e (s.conns e) s.trace o).1 (readConn size e (s.conns e) s.trace o).2) :
    ParsingOnce size s' := by
  have hlogs := hround.log
  have hnames := hround.fresh
  obtain ⟨haround, hends⟩ := hround
  rw [h.bufSize] at haround hends hlogs hnames
  have hgrows : LogGrows e ((s.conns e).Owns s.trace.fresh) s.trace s'.trace := by
    obtain ⟨hfresh, evs, hlog, hevs⟩ := hread.grows
    exact ⟨hfresh.trans hnames, evs, hlogs.trans hlog, hevs⟩
  -- the request of another connection is not the one that is read
  have hother {i : ℕ} (hi : i ∈ s.taken) (hie : i ≠ e) (r : Request)
      (hr : (s.conns i).request = some r) : ¬ (s.conns e).Owns s.trace.fresh r.pool := by
    rintro (⟨r₀, hr₀, hpool⟩ | hnew)
    · exact hie (h.distinct hc i hi e he r r₀ hr hr₀ hpool.symm)
    · exact absurd ((h.serving hc i hi).request r hr).1 (not_lt.mpr hnew)
  have hconn (hc' : s'.crashed = false) {i : ℕ} (hi : i ∈ s'.taken) :
      Serving size s'.trace i (s'.conns i) ∧ ∀ r, (s'.conns i).request = some r →
        (i = e ∧ (s.conns e).Owns s.trace.fresh r.pool) ∨
        (i ≠ e ∧ i ∈ s.taken ∧ (s.conns i).request = some r) := by
    rcases hends with ⟨hcrash, -⟩ | ⟨-, hcall, hend⟩
    · rw [hcrash] at hc'
      cases hc'
    by_cases hie : i = e
    · subst hie
      rcases hend with ⟨-, hout⟩ | ⟨-, -, hset⟩
      · exact absurd hi hout
      · obtain ⟨hserving, howns⟩ := round_serving hread hcall
        obtain ⟨hsettled, hreq⟩ := hserving.settle hset
        refine ⟨hsettled.mono hnames hlogs, fun r hr => Or.inl ⟨rfl, howns r ?_⟩⟩
        rw [← hreq]
        exact hr
    · by_cases hin : i ∈ s.taken
      · rw [(haround.kept i hin hie).2]
        exact ⟨(h.serving hc i hin).other hie hgrows (hother hin hie),
          fun r hr => Or.inr ⟨hie, hin, hr⟩⟩
      · obtain ⟨fd, p, hnew⟩ := haround.new i hi hin
        rw [hnew]
        refine ⟨⟨?_, fun r hr => by cases hr⟩, fun r hr => by cases hr⟩
        simp [Conn.armed, newConn, Mask.readOnly]
  refine ⟨hrest, haround.bufSize.trans h.bufSize, hlogs ▸ hread.once,
    hread.below.mono hnames hlogs, fun hc' i hi => (hconn hc' hi).1, ?_⟩
  intro hc' i hi j hj r r' hr hr' hpool
  rcases (hconn hc' hi).2 r hr with ⟨rfl, howns⟩ | ⟨hie, hin, hri⟩
  · rcases (hconn hc' hj).2 r' hr' with ⟨rfl, -⟩ | ⟨hje, hjn, hrj⟩
    · rfl
    · exact absurd (hpool ▸ howns) (hother hjn hje r' hrj)
  · rcases (hconn hc' hj).2 r' hr' with ⟨rfl, howns⟩ | ⟨-, hjn, hrj⟩
    · exact absurd (hpool ▸ howns) (hother hin hie r hri)
    · exact h.distinct hc i hin j hjn r r' hri hrj hpool

/-- **One step keeps requests apart exactly when it gives no bytes to an answered
request.** -/
lemma netStep_once {size : ℕ} {s : Net} (h : ParsingOnce size s) {i : Input}
    (hi : PollsValid s i) :
    (¬ ReadsAnswered s i → ParsingOnce size (netStep s i)) ∧
      (ReadsAnswered s i → ¬ EachOnce size (netStep s i).trace.log) := by
  have hrest := netStep_resting h.resting i hi
  rcases netStep_cases h.resting i with ⟨hbatch, hnone⟩ | ⟨e, o, rfl, hcur, hc, he, hround⟩
  · refine ⟨fun _ => ?_, fun hbad => ?_⟩
    · have hreq (e : ℕ) : ∃ m next, (netStep s i).conns e =
          { s.conns e with activeEvents := m, next := next } := hbatch.conn e
      refine ⟨hrest, hbatch.bufSize.trans h.bufSize, hbatch.trace ▸ h.once, hbatch.trace ▸ h.below,
        fun hc' e he => ?_, fun hc' j hj k hk => ?_⟩
      · obtain ⟨m, next, hconn⟩ := hreq e
        rw [hbatch.crashed] at hc'
        rw [hbatch.taken] at he
        have hserving := h.serving hc' e he
        rw [hconn, hbatch.trace]
        exact ⟨hserving.waits, hserving.request⟩
      · obtain ⟨m, next, hconn⟩ := hreq j
        obtain ⟨m', next', hconn'⟩ := hreq k
        rw [hbatch.crashed] at hc'
        rw [hbatch.taken] at hj hk
        rw [hconn, hconn']
        exact h.distinct hc' j hj k hk
    · cases i with
      | poll reports => exact hbad.elim
      | dispatch o =>
        obtain ⟨hc, e, hcur, -⟩ := hbad
        rw [hnone e o rfl hcur] at hc
        cases hc
  · have hserving := h.serving hc e he
    refine ⟨fun hquiet => h.round hc he hround hrest ?_, ?_⟩
    · unfold readConn
      split_ifs with hread
      · refine tcpServerRecv_once hserving h.below h.once (fun r hr hans => ?_)
        by_contra hgot
        exact hquiet ⟨hc, e, hcur, hread.1, hread.2, r, hr, hans, hgot⟩
      · exact ⟨hserving, h.once, h.below, ⟨le_refl _, [], rfl, by simp⟩,
          fun r hr => Or.inl ⟨r, hr, rfl⟩⟩
    · rintro ⟨-, e', hcur', hact, hhandler, r, hr, hans, hgot⟩ honce
      rw [hcur] at hcur'
      cases hcur'
      rw [hround.log, readConn, if_pos ⟨hact, hhandler⟩] at honce
      obtain ⟨evs, hlog⟩ := @tcpServerRecv_parses s.bufSize e (s.conns e) s.trace o r hr hgot
      rw [hlog] at honce
      have hok : OnlyOk r.pool s.trace.log := honce.of_append.1
      rcases (hserving.request r hr).2 with hclosed | hopen
      · rcases hclosed.parsed with hbad | hroom
        · exact hbad hok
        · refine hgot ?_
          unfold Request.got
          rw [hroom]
          split
          · rfl
          · rfl
      · exact hopen.unanswered hans

lemma initNetworkMod_once {n : ℕ} (hn : 1 ≤ n) (sockFd : ℤ) (bufSize : ℕ)
    (garbage : ℕ → Conn) :
    ParsingOnce (requestBufferSize bufSize) (initNetworkMod n sockFd bufSize garbage) := by
  have hrest := initNetworkMod_resting hn sockFd bufSize garbage
  rw [initNetworkMod_eq] at hrest ⊢
  refine ⟨hrest, rfl, trivial, fun e r code hin => (by cases hin), fun _ e he => ?_,
    fun _ i hi j hj _ _ _ _ _ => ?_⟩
  · obtain rfl := List.mem_singleton.mp he
    simp only [Function.update_self]
    exact ⟨by simp [listenConn, newConn], fun r hr => by cases hr⟩
  · rw [List.mem_singleton.mp hi, List.mem_singleton.mp hj]

/-- **In every state of a run each request object has parsed one request, exactly
when no read gives bytes to a request that is already answered.** -/
theorem parses_once_iff (n : ℕ) (hn : 1 ≤ n) (sockFd : ℤ) (bufSize : ℕ) (garbage : ℕ → Conn)
    (inputs : List Input)
    (hpolls : Along netStep PollsValid (initNetworkMod n sockFd bufSize garbage) inputs) :
    Along netStep (fun s i => EachOnce (requestBufferSize bufSize) (netStep s i).trace.log)
        (initNetworkMod n sockFd bufSize garbage) inputs ↔
      Along netStep (fun s i => ¬ ReadsAnswered s i)
        (initNetworkMod n sockFd bufSize garbage) inputs := by
  refine along_iff (I := ParsingOnce (requestBufferSize bufSize))
    (fun s i h hi hq => (netStep_once h hi).1 hq) (fun s i h hi => ?_)
    (initNetworkMod_once hn sockFd bufSize garbage) hpolls
  constructor
  · exact fun honce hbad => (netStep_once h hi).2 hbad honce
  · exact fun hq => ((netStep_once h hi).1 hq).once

/-- A `PUT` that is answered at once. -/
theorem parses_once_put :
    Along netStep (fun s i => EachOnce (requestBufferSize 1024) (netStep s i).trace.log)
      twoConnections putAnswered :=
  (parses_once_iff 2 (by decide) 3 1024 (fun _ => newConn 0 0) putAnswered
    ⟨reported_one 3 .readOnly rfl (by decide) (by decide), trivial,
      reported_one 5 .readOnly rfl (by decide) (by decide), trivial, trivial⟩).mpr
    ⟨id, fun ⟨_, _, hcur, _, hrecv, _⟩ => (by cases hcur; cases hrecv), id,
      fun ⟨_, _, hcur, _, _, _, hreq, _⟩ => (by cases hcur; cases hreq), trivial⟩

/-- The answer to a first `PUT` stops at EAGAIN; the second `PUT` is parsed with the
same request. -/
theorem parses_once_again :
    ¬ ∀ inputs, Along netStep PollsValid twoConnections inputs →
      Along netStep (fun s i => EachOnce (requestBufferSize 1024) (netStep s i).trace.log)
        twoConnections inputs := by
  intro h
  have hrun := h putTwice
    ⟨reported_one 3 .readOnly rfl (by decide) (by decide), trivial,
      reported_one 5 .readOnly rfl (by decide) (by decide), trivial,
      reported_one 5 .both rfl (by decide) (by decide), trivial, trivial⟩
  obtain ⟨-, -, -, -, -, honce, -⟩ := hrun
  revert honce
  decide +kernel

end Xpipe
