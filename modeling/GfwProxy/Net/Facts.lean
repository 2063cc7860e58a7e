import GfwProxy.Net.Placed

set_option autoImplicit false

/-!
# What is known about a message from its place

One lemma for each operation on a message or a connection: what is known about the messages from
their places stays true.

## Main definitions

* `GfwProxy.Place.Refers` — the place of a message mentions a connection.

## Main results

* `GfwProxy.Facts.not_refers` — no place mentions a connection that is not open.
* `GfwProxy.Queues.abandon`, `GfwProxy.Facts.abandon` — a server connection is given up with the
  messages in its queues.
-/

namespace GfwProxy

open Function

variable {n : Net}

section Facts

variable (hi : Facts n) {m p r : MsgId} {s c : ConnId} {cli : Option ConnId}
  {srv : Option (ConnId × Bool)}

include hi

/-- A message is released. -/
lemma Facts.free (hm : n.g.place m = .hand) (hp : n.m.peer m = none) :
    Facts (n.move m .free) := by
  constructor
  case reading =>
    have := hi.reading
    simp only [Net.move]
    grind [update_apply]
  case cli =>
    have := hi.cli
    simp only [Net.move]
    grind [update_apply]
  case srv =>
    have := hi.srv
    simp only [Net.move]
    grind [update_apply]
  case rsp =>
    have := hi.rsp
    simp only [Net.move]
    grind [update_apply]
  case peer =>
    have := hi.peer
    simp only [Net.move]
    grind [update_apply]

/-- A message is allocated. -/
lemma Facts.newMsg {x : Msg} (hm : n.g.place m = .free) (hx : (n.m.set m x).Blank m) :
    Facts ({ n with m := n.m.set m x }.move m .hand) := by
  have hp : x.peer = none := by simpa [MsgCols.set] using hx.peer
  constructor
  case reading =>
    intro y c' hy
    have hne : y ≠ m := by
      rintro rfl
      simp [Net.move] at hy
    have := hi.reading y c' (by simpa [Net.move, hne] using hy)
    simpa [Net.move, Net.Of, MsgCols.set, MsgCols.blank_iff, hne] using this
  case cli =>
    have := hi.cli
    simp only [Net.move, MsgCols.set]
    grind [update_apply]
  case srv =>
    have := hi.srv
    simp only [Net.move, MsgCols.set]
    grind [update_apply]
  case rsp =>
    have := hi.rsp
    simp only [Net.move, MsgCols.set]
    grind [update_apply]
  case peer =>
    have := hi.peer
    have := hi.rsp
    simp only [Net.move, MsgCols.set]
    grind [update_apply]

/-- A connection begins to receive a message. -/
lemma Facts.read (hm : n.g.place m = .hand) (hc : n.Open c) (ho : n.Of m c)
    (hb : n.m.Blank m) (hf : n.m.fragOwner m = none) (hf' : n.m.fragId m = 0) :
    Facts (n.move m (.reading c)) := by
  have hp := hb.peer
  constructor
  case reading =>
    have := hi.reading
    simp only [Net.move]
    grind [update_apply]
  case cli =>
    have := hi.cli
    simp only [Net.move]
    grind [update_apply]
  case srv =>
    have := hi.srv
    simp only [Net.move]
    grind [update_apply]
  case rsp =>
    have := hi.rsp
    simp only [Net.move]
    grind [update_apply]
  case peer =>
    have := hi.peer
    simp only [Net.move]
    grind [update_apply]

/-- A connection has received a message. -/
lemma Facts.unread (hm : n.g.place m = .reading c) : Facts (n.move m .hand) := by
  have hp := (hi.reading m c hm).2.2.1.peer
  constructor
  case reading =>
    have := hi.reading
    simp only [Net.move]
    grind [update_apply]
  case cli =>
    have := hi.cli
    simp only [Net.move]
    grind [update_apply]
  case srv =>
    have := hi.srv
    simp only [Net.move]
    grind [update_apply]
  case rsp =>
    have := hi.rsp
    simp only [Net.move]
    grind [update_apply]
  case peer =>
    have := hi.peer
    simp only [Net.move]
    grind [update_apply]

/-- A request enters the queue of a client. -/
lemma Facts.expect (hm : n.g.place m = .hand) (hc : n.Client c) (ho : n.Of m c)
    (hs : n.m.swallow m = false) : Facts (n.move m (.req (some c) none)) := by
  constructor
  case reading =>
    have := hi.reading
    simp only [Net.move]
    grind [update_apply]
  case cli =>
    have := hi.cli
    simp only [Net.move]
    grind [update_apply]
  case srv =>
    have := hi.srv
    simp only [Net.move]
    grind [update_apply]
  case rsp =>
    have := hi.rsp
    simp only [Net.move]
    grind [update_apply]
  case peer =>
    have := hi.peer
    simp only [Net.move]
    grind [update_apply]

/-- A request leaves the queue of a client. -/
lemma Facts.leave (hm : n.g.place m = .req (some c) none) : Facts (n.move m .hand) := by
  constructor
  case reading =>
    have := hi.reading
    simp only [Net.move]
    grind [update_apply]
  case cli =>
    have := hi.cli
    simp only [Net.move]
    grind [update_apply]
  case srv =>
    have := hi.srv
    simp only [Net.move]
    grind [update_apply]
  case rsp =>
    have := hi.rsp
    simp only [Net.move]
    grind [update_apply]
  case peer =>
    have := hi.peer
    simp only [Net.move]
    grind [update_apply]

/-- A request is left to its server connection. -/
lemma Facts.orphan (hm : n.g.place m = .req (some c) srv) :
    Facts ({ n with m.swallow := update n.m.swallow m true }.move m (.req none srv)) := by
  constructor
  case reading =>
    intro y c' hy
    have hne : y ≠ m := by
      rintro rfl
      simp [Net.move] at hy
    have := hi.reading y c' (by simpa [Net.move, hne] using hy)
    simpa [Net.move, MsgCols.blank_iff, hne] using this
  case cli =>
    have := hi.cli
    simp only [Net.move]
    grind [update_apply]
  case srv =>
    have := hi.srv
    simp only [Net.move]
    grind [update_apply]
  case rsp =>
    have := hi.rsp
    simp only [Net.move]
    grind [update_apply]
  case peer =>
    have := hi.peer
    simp only [Net.move]
    grind [update_apply]

/-- A request enters the in queue of a server connection. -/
lemma Facts.enqIn (hm : n.g.place m = .req cli none) (hs : n.Server s) (hb : n.m.Blank m)
    (hr : n.m.noreply m = true → cli = none) (hr' : n.m.noreply m = false → cli ≠ none) :
    Facts (n.move m (.req cli (some (s, false)))) := by
  have hp := hb.peer
  have hd := hb.done
  have he := hb.error
  constructor
  case reading =>
    have := hi.reading
    simp only [Net.move]
    grind [update_apply]
  case cli =>
    have := hi.cli
    simp only [Net.move]
    grind [update_apply]
  case srv =>
    have := hi.srv
    simp only [Net.move]
    grind [update_apply]
  case rsp =>
    have := hi.rsp
    simp only [Net.move]
    grind [update_apply]
  case peer =>
    have := hi.peer
    simp only [Net.move]
    grind [update_apply]

/-- A request has been sent. -/
lemma Facts.sent (hm : n.g.place m = .req cli (some (s, false)))
    (hr : n.m.noreply m = false) : Facts (n.move m (.req cli (some (s, true)))) := by
  constructor
  case reading =>
    have := hi.reading
    simp only [Net.move]
    grind [update_apply]
  case cli =>
    have := hi.cli
    simp only [Net.move]
    grind [update_apply]
  case srv =>
    have := hi.srv
    simp only [Net.move]
    grind [update_apply]
  case rsp =>
    have := hi.rsp
    simp only [Net.move]
    grind [update_apply]
  case peer =>
    have := hi.peer
    simp only [Net.move]
    grind [update_apply]

/-- A request leaves the queues of a server connection. -/
lemma Facts.settled {b : Bool} (hm : n.g.place m = .req cli (some (s, b))) :
    Facts (n.move m (.req cli none)) := by
  have hp := (hi.srv m cli s b hm).2.2.2.1
  constructor
  case reading =>
    have := hi.reading
    simp only [Net.move]
    grind [update_apply]
  case cli =>
    have := hi.cli
    simp only [Net.move]
    grind [update_apply]
  case srv =>
    have := hi.srv
    simp only [Net.move]
    grind [update_apply]
  case rsp =>
    have := hi.rsp
    simp only [Net.move]
    grind [update_apply]
  case peer =>
    have := hi.peer
    simp only [Net.move]
    grind [update_apply]

/-- A request is linked to its response. -/
lemma Facts.link (hp : n.g.place p = .req cli none) (hpp : n.m.peer p = none)
    (hr : n.g.place r = .hand) (hrp : n.m.peer r = none) (hne : p ≠ r) :
    Facts ((n.link p r).move r (.rsp p)) := by
  constructor
  case reading =>
    intro y c' hy
    have hyr : y ≠ r := by
      rintro rfl
      simp [Net.move] at hy
    have hy' : n.g.place y = .reading c' := by simpa [Net.move, Net.link, hyr] using hy
    have hyp : y ≠ p := by
      rintro rfl
      simp [hp] at hy'
    simpa [Net.move, Net.Of, Net.link, MsgCols.blank_iff, hyr, hyp] using hi.reading y c' hy'
  case cli =>
    have := hi.cli
    simp only [Net.move, Net.link]
    grind [update_apply]
  case srv =>
    have := hi.srv
    simp only [Net.move, Net.link]
    grind [update_apply]
  case rsp =>
    have := hi.rsp
    simp only [Net.move, Net.link]
    grind [update_apply]
  case peer =>
    have := hi.peer
    have := hi.rsp
    simp only [Net.move, Net.link]
    grind [update_apply]

/-- The link of a request to its response is broken. -/
lemma Facts.unlink (hp : n.m.peer p = some r) (hr : n.g.place r = .rsp p) :
    Facts ((n.unlink p r).move r .hand) := by
  have hback := hi.rsp r p hr
  constructor
  case reading =>
    intro y c' hy
    have hyr : y ≠ r := by
      rintro rfl
      simp [Net.move] at hy
    have hy' : n.g.place y = .reading c' := by simpa [Net.move, Net.unlink, hyr] using hy
    have hyp : y ≠ p := by
      rintro rfl
      obtain ⟨-, -, cli, hcli⟩ := hback
      simp [hcli] at hy'
    simpa [Net.move, Net.Of, Net.unlink, MsgCols.blank_iff, hyr, hyp] using hi.reading y c' hy'
  case cli =>
    have := hi.cli
    simp only [Net.move, Net.unlink]
    grind [update_apply]
  case srv =>
    have := hi.srv
    simp only [Net.move, Net.unlink]
    grind [update_apply]
  case rsp =>
    have := hi.rsp
    simp only [Net.move, Net.unlink]
    grind [update_apply]
  case peer =>
    have := hi.peer
    have := hi.rsp
    simp only [Net.move, Net.unlink]
    grind [update_apply]

/-- A request that is in no queue of a server connection is done. -/
lemma Facts.finish (hm : n.g.place m = .req cli none) : Facts (n.finish m) := by
  constructor
  case reading =>
    intro y c' hy
    have hne : y ≠ m := by
      rintro rfl
      simp [Net.finish, hm] at hy
    simpa [Net.Of, Net.finish, MsgCols.blank_iff, hne] using hi.reading y c' hy
  case cli => exact hi.cli
  case srv =>
    have := hi.srv
    simp only [Net.finish]
    grind [update_apply]
  case rsp => exact hi.rsp
  case peer => exact hi.peer

/-- A request that is in no queue of a server connection is in error. -/
lemma Facts.fail (hm : n.g.place m = .req cli none) (b : Bool) : Facts (n.fail m b) := by
  constructor
  case reading =>
    intro y c' hy
    have hne : y ≠ m := by
      rintro rfl
      simp [Net.fail, hm] at hy
    simpa [Net.Of, Net.fail, MsgCols.blank_iff, hne] using hi.reading y c' hy
  case cli => exact hi.cli
  case srv =>
    have := hi.srv
    simp only [Net.fail]
    grind [update_apply]
  case rsp => exact hi.rsp
  case peer => exact hi.peer

/-- A message leaves the timeout tree. -/
lemma Facts.tmoDelete (m : MsgId) : Facts (n.tmoDelete m) := by
  unfold Net.tmoDelete
  split
  · exact hi
  · constructor
    case reading =>
      intro y c hy
      obtain ⟨hopen, hof, hb, hf⟩ := hi.reading y c hy
      refine ⟨hopen, hof, { hb with tmoData := ?_ }, hf⟩
      have ht := hb.tmoData
      simp only
      grind [update_apply]
    case cli => exact hi.cli
    case srv => exact hi.srv
    case rsp => exact hi.rsp
    case peer => exact hi.peer

/-- A fragment is counted. -/
lemma Facts.count (hm : ∀ c, n.g.place m ≠ .reading c)
    (ho : ∀ o, n.m.fragOwner m = some o → ∀ c, n.g.place o ≠ .reading c) (b : Bool) :
    Facts (n.count m b) := by
  unfold Net.count
  split
  · exact hi
  · rename_i o hmo
    constructor
    case reading =>
      intro y c hy
      obtain ⟨hopen, hof, hb, hf⟩ := hi.reading y c hy
      have hym : y ≠ m := fun he => hm c (he ▸ hy)
      have hyo : y ≠ o := fun he => ho o hmo c (he ▸ hy)
      refine ⟨hopen, hof, { hb with nfragDone := ?_, counted := ?_ }, hf⟩
      · simpa [hyo] using hb.nfragDone
      · simpa [hym] using hb.counted
    case cli => exact hi.cli
    case srv => exact hi.srv
    case rsp => exact hi.rsp
    case peer => exact hi.peer

/-- Requests of a queue are marked as done. -/
lemma Facts.mark {f : MsgId → Bool}
    (hf : ∀ y c, n.g.place y = .reading c → f y = n.m.fdone y) :
    Facts { n with m.fdone := f } := by
  constructor
  case reading =>
    intro y c hy
    obtain ⟨hopen, hof, hb, hfrag⟩ := hi.reading y c hy
    exact ⟨hopen, hof, { hb with fdone := (hf y c hy).trans hb.fdone }, hfrag⟩
  case cli => exact hi.cli
  case srv => exact hi.srv
  case rsp => exact hi.rsp
  case peer => exact hi.peer

/-- A handler writes to a message that it holds. -/
lemma Facts.hand {f : MsgCols → MsgCols} (hm : n.g.place m = .hand)
    (hne : ∀ y, y ≠ m → (f n.m).owner y = n.m.owner y ∧ (f n.m).ownerGen y = n.m.ownerGen y ∧
      (f n.m).fragOwner y = n.m.fragOwner y ∧ (f n.m).fragId y = n.m.fragId y)
    (hpeer : (f n.m).peer = n.m.peer) (htmo : (f n.m).tmoData = n.m.tmoData)
    (hcount : (f n.m).nfragDone = n.m.nfragDone ∧ (f n.m).counted = n.m.counted)
    (hflags : (f n.m).error = n.m.error ∧ (f n.m).done = n.m.done ∧ (f n.m).fdone = n.m.fdone ∧
      (f n.m).swallow = n.m.swallow ∧ (f n.m).noreply = n.m.noreply) :
    Facts { n with m := f n.m } := by
  obtain ⟨hnfrag, hcounted⟩ := hcount
  obtain ⟨herror, hdone, hfdone, hswallow, hnoreply⟩ := hflags
  constructor
  case reading =>
    intro y c hy
    change n.g.place y = _ at hy
    have hym : y ≠ m := by
      rintro rfl
      simp [hm] at hy
    obtain ⟨howner, hgen, hfo, hfi⟩ := hne y hym
    simpa [Net.Of, MsgCols.blank_iff, howner, hgen, hfo, hfi, hpeer, htmo, hnfrag, hcounted,
      herror, hdone, hfdone, hswallow] using hi.reading y c hy
  case cli =>
    intro y c srv hy
    change n.g.place y = _ at hy
    have hym : y ≠ m := by
      rintro rfl
      simp [hm] at hy
    obtain ⟨howner, hgen, -, -⟩ := hne y hym
    simpa [Net.Of, howner, hgen, hswallow] using hi.cli y c srv hy
  case srv => simpa [hdone, herror, hpeer, hnoreply, hswallow] using hi.srv
  case rsp => simpa [hpeer] using hi.rsp
  case peer => simpa [hpeer] using hi.peer

/-- The parser marks the request that a connection receives as noreply. -/
lemma Facts.setNoreply (hm : n.g.place m = .reading c) (b : Bool) :
    Facts { n with m.noreply := update n.m.noreply m b } := by
  constructor
  case reading => 
    have := hi.reading
    simpa [MsgCols.blank_iff] using this
  case cli => exact hi.cli
  case srv =>
    intro y cli s b' hy
    have hne : y ≠ m := by
      rintro rfl
      simp [hm] at hy
    simpa [hne] using hi.srv y cli s b' hy
  case rsp => exact hi.rsp
  case peer => exact hi.peer

end Facts

/-! ## Connections -/

/-- The place speaks of connection `c`. -/
def Place.Refers (c : ConnId) : Place → Prop
  | .reading c' => c' = c
  | .req cli srv => cli = some c ∨ ∃ b, srv = some (c, b)
  | _ => False

/-- The places speak of open connections only. -/
lemma Facts.refers (hi : Facts n) {m : MsgId} {c : ConnId} (h : (n.g.place m).Refers c) :
    n.Open c := by
  match hx : n.g.place m, h with
  | .reading _, h =>
    cases h
    exact (hi.reading m c hx).1
  | .req cli srv, .inl h =>
    subst h
    obtain ⟨p, hp⟩ := (hi.cli m c srv hx).1
    simp [Net.Open, hp]
  | .req cli srv, .inr ⟨b, h⟩ =>
    subst h
    obtain ⟨p, i, hp⟩ := (hi.srv m cli c b hx).1
    simp [Net.Open, hp]

section Connections

variable {c : ConnId}

/-- Connection `c` stops being open. -/
lemma Queues.unref (hi : Queues n) : Queues { n with c.owner := update n.c.owner c none } := by
  have hother : ∀ x o, update n.c.owner c none x = some o → n.c.owner x = some o := by
    intro x o hx
    rcases eq_or_ne x c with rfl | hne
    · simp at hx
    · simpa [hne] using hx
  have hopen : ∀ x, update n.c.owner c none x ≠ none → n.Open x := by
    intro x hx
    obtain ⟨o, ho⟩ := Option.ne_none_iff_exists'.mp hx
    simp [Net.Open, hother x o ho]
  constructor
  case imsgq_nodup => exact fun s hs => hi.imsgq_nodup s (hopen s hs)
  case omsgq_nodup => exact fun s hs => hi.omsgq_nodup s (hopen s hs)
  case imsgq => exact fun s hs => hi.imsgq s (hopen s hs)
  case omsgq_server => exact fun s ⟨p, i, hs⟩ => hi.omsgq_server s ⟨p, i, hother s _ hs⟩
  case omsgq_client => exact fun c ⟨p, hc⟩ => hi.omsgq_client c ⟨p, hother c _ hc⟩
  case rmsg => exact fun c hc => hi.rmsg c (hopen c hc)

/-- Connection `c`, which no place speaks of, stops being open. -/
lemma Facts.unref (hi : Facts n) (hc : ∀ m, ¬(n.g.place m).Refers c) :
    Facts { n with c.owner := update n.c.owner c none } := by
  constructor
  case reading =>
    intro y c' hy
    change n.g.place y = _ at hy
    have hne : c' ≠ c := fun he => hc y (by simp [hy, Place.Refers, he])
    simpa [Net.Of, hne] using hi.reading y c' hy
  case cli =>
    intro y c' srv hy
    change n.g.place y = _ at hy
    have hne : c' ≠ c := fun he => hc y (by simp [hy, Place.Refers, he])
    simpa [Net.Of, Net.Client, hne] using hi.cli y c' srv hy
  case srv =>
    intro y cli s b hy
    change n.g.place y = _ at hy
    have hne : s ≠ c := fun he => hc y (by simp [hy, Place.Refers, he])
    simpa [Net.Server, hne] using hi.srv y cli s b hy
  case rsp => exact hi.rsp
  case peer => exact hi.peer

/-- A connection that no place speaks of has empty queues. -/
lemma Queues.empty (hi : Queues n) (hq : n.Client c ∧ n.c.omsgq c = [] ∨
    n.Server c ∧ n.c.imsgq c = [] ∧ n.c.omsgq c = []) (hr : n.c.rmsg c = none)
    (hf : Facts n) (m : MsgId) : ¬(n.g.place m).Refers c := by
  intro h
  have hopen := hf.refers h
  match hx : n.g.place m, h with
  | .reading _, h =>
    cases h
    simp [(hi.rmsg c hopen m).mpr hx] at hr
  | .req cli srv, .inl h =>
    subst h
    obtain ⟨p, hp⟩ := (hf.cli m c srv hx).1
    have hmem := (hi.omsgq_client c ⟨p, hp⟩ m).mpr ⟨srv, hx⟩
    rcases hq with ⟨-, hq⟩ | ⟨-, -, hq⟩ <;> simp [hq] at hmem
  | .req cli srv, .inr ⟨b, h⟩ =>
    subst h
    obtain ⟨p, i, hp⟩ := (hf.srv m cli c b hx).1
    rcases hq with ⟨⟨p', hp'⟩, -⟩ | ⟨hserver, hq₁, hq₂⟩
    · simp [hp] at hp'
    · cases b with
      | false =>
        have hmem := (hi.imsgq c hopen m).mpr ⟨cli, hx⟩
        simp [hq₁] at hmem
      | true =>
        have hmem := (hi.omsgq_server c hserver m).mpr ⟨cli, hx⟩
        simp [hq₂] at hmem

variable (hc : n.c.owner c = none)

include hc

/-- No place speaks of a connection that is not open. -/
lemma Facts.not_refers (hi : Facts n) (m : MsgId) : ¬(n.g.place m).Refers c :=
  fun h => hi.refers h hc

/-- Connection `c` becomes open, with empty queues. -/
lemma Queues.openConn (hi : Queues n) (hf : Facts n) {x : Conn} (hx : x.imsgq = [])
    (hx' : x.omsgq = []) (hr : x.rmsg = none) : Queues { n with c := n.c.set c x } := by
  have hnot := hf.not_refers hc
  constructor
  case imsgq_nodup =>
    intro s hs
    rcases eq_or_ne s c with rfl | hne
    · simp [ConnCols.set, hx]
    · simpa [ConnCols.set, hne] using hi.imsgq_nodup s (by simpa [ConnCols.set, hne] using hs)
  case omsgq_nodup =>
    intro s hs
    rcases eq_or_ne s c with rfl | hne
    · simp [ConnCols.set, hx']
    · simpa [ConnCols.set, hne] using hi.omsgq_nodup s (by simpa [ConnCols.set, hne] using hs)
  case imsgq =>
    intro s hs m
    rcases eq_or_ne s c with rfl | hne
    · have hno : ∀ cli, n.g.place m ≠ .req cli (some (s, false)) := by
        intro cli h
        exact hnot m (by simp [h, Place.Refers])
      simp [ConnCols.set, hx, hno]
    · simpa [ConnCols.set, hne] using hi.imsgq s (by simpa [ConnCols.set, hne] using hs) m
  case omsgq_server =>
    intro s hs m
    rcases eq_or_ne s c with rfl | hne
    · have hno : ∀ cli, n.g.place m ≠ .req cli (some (s, true)) := by
        intro cli h
        exact hnot m (by simp [h, Place.Refers])
      simp [ConnCols.set, hx', hno]
    · simpa [ConnCols.set, hne] using
        hi.omsgq_server s (by simpa [Net.Server, ConnCols.set, hne] using hs) m
  case omsgq_client =>
    intro s hs m
    rcases eq_or_ne s c with rfl | hne
    · have hno : ∀ srv, n.g.place m ≠ .req (some s) srv := by
        intro srv h
        exact hnot m (by simp [h, Place.Refers])
      simp [ConnCols.set, hx', hno]
    · simpa [ConnCols.set, hne] using
        hi.omsgq_client s (by simpa [Net.Client, ConnCols.set, hne] using hs) m
  case rmsg =>
    intro s hs m
    rcases eq_or_ne s c with rfl | hne
    · have hno : n.g.place m ≠ .reading s := by
        intro h
        exact hnot m (by simp [h, Place.Refers])
      simp [ConnCols.set, hr, hno]
    · simpa [ConnCols.set, hne] using hi.rmsg s (by simpa [ConnCols.set, hne] using hs) m

/-- Connection `c`, which is not open, is changed. -/
lemma Facts.setConn (hi : Facts n) (x : Conn) : Facts { n with c := n.c.set c x } := by
  have hnot := hi.not_refers hc
  constructor
  case reading =>
    intro y c' hy
    change n.g.place y = _ at hy
    have hne : c' ≠ c := fun he => hnot y (by simp [hy, Place.Refers, he])
    simpa [Net.Of, ConnCols.set, hne] using hi.reading y c' hy
  case cli =>
    intro y c' srv hy
    change n.g.place y = _ at hy
    have hne : c' ≠ c := fun he => hnot y (by simp [hy, Place.Refers, he])
    simpa [Net.Of, Net.Client, ConnCols.set, hne] using hi.cli y c' srv hy
  case srv =>
    intro y cli s b hy
    change n.g.place y = _ at hy
    have hne : s ≠ c := fun he => hnot y (by simp [hy, Place.Refers, he])
    simpa [Net.Server, ConnCols.set, hne] using hi.srv y cli s b hy
  case rsp => exact hi.rsp
  case peer => exact hi.peer

end Connections

/-! ## Abandoned connections -/

section Abandon

variable {s : ConnId}

/-- Another connection goes on receiving its message. -/
lemma Net.afterAbandon_reading {x : Place} {c : ConnId} (hc : c ≠ s) :
    afterAbandon s x = .reading c ↔ x = .reading c := by
  cases x with
  | reading c' =>
    by_cases hc' : c' = s
    · simp [afterAbandon, hc', hc.symm]
    · simp [afterAbandon, hc']
  | req cli srv =>
    rcases srv with _ | ⟨s', b⟩
    · simp [afterAbandon]
    · by_cases hs' : s' = s <;> by_cases hcli : cli = none <;> simp [afterAbandon, hs', hcli]
  | _ => simp [afterAbandon]

/-- The requests in the queues of another connection stay there. -/
lemma Net.afterAbandon_srv {x : Place} {cli : Option ConnId} {s' : ConnId} {b : Bool} :
    afterAbandon s x = .req cli (some (s', b)) ↔ s' ≠ s ∧ x = .req cli (some (s', b)) := by
  cases x with
  | reading c' => by_cases hc' : c' = s <;> simp [afterAbandon, hc']
  | req cli srv =>
    rcases srv with _ | ⟨s'', b'⟩
    · simp [afterAbandon]
    · by_cases hs' : s'' = s <;> by_cases hcli : cli = none <;>
        simp [afterAbandon, hs', hcli] <;> grind
  | _ => simp [afterAbandon]

/-- The clients keep their requests. -/
lemma Net.afterAbandon_cli {x : Place} {c : ConnId} :
    (∃ srv, afterAbandon s x = .req (some c) srv) ↔ ∃ srv, x = .req (some c) srv := by
  cases x with
  | reading c' => by_cases hc' : c' = s <;> simp [afterAbandon, hc']
  | req cli srv =>
    rcases srv with _ | ⟨s'', b'⟩
    · simp [afterAbandon]
    · by_cases hs' : s'' = s <;> by_cases hcli : cli = none <;> simp [afterAbandon, hs', hcli]
  | _ => simp [afterAbandon]

/-- The responses stay linked. -/
lemma Net.afterAbandon_rsp {x : Place} {p : MsgId} : afterAbandon s x = .rsp p ↔ x = .rsp p := by
  cases x with
  | reading c' => by_cases hc' : c' = s <;> simp [afterAbandon, hc']
  | req cli srv =>
    rcases srv with _ | ⟨s'', b'⟩
    · simp [afterAbandon]
    · by_cases hs' : s'' = s <;> by_cases hcli : cli = none <;> simp [afterAbandon, hs', hcli]
  | _ => simp [afterAbandon]

/-- No message is released. -/
lemma Net.afterAbandon_free {x : Place} : afterAbandon s x = .free ↔ x = .free := by
  cases x with
  | reading c' => by_cases hc' : c' = s <;> simp [afterAbandon, hc']
  | req cli srv =>
    rcases srv with _ | ⟨s'', b'⟩
    · simp [afterAbandon]
    · by_cases hs' : s'' = s <;> by_cases hcli : cli = none <;> simp [afterAbandon, hs', hcli]
  | _ => simp [afterAbandon]

/-- A request outside the queues of servers after `s` is abandoned was so before, or was in a
queue of `s`. -/
lemma Net.afterAbandon_none {x : Place} {cli : Option ConnId}
    (h : afterAbandon s x = .req cli none) :
    x = .req cli none ∨ ∃ b, x = .req cli (some (s, b)) := by
  cases x with
  | reading c' => by_cases hc' : c' = s <;> simp [afterAbandon, hc'] at h
  | req cli' srv =>
    rcases srv with _ | ⟨s', b⟩
    · exact .inl h
    · by_cases hs' : s' = s <;> by_cases hcli : cli' = none <;>
        simp [afterAbandon, hs', hcli] at h ⊢
      exact h
  | _ => simp [afterAbandon] at h

variable (hs : n.Server s)

/-- Server connection `s` is abandoned. -/
lemma Queues.abandon (hi : Queues n) :
    Queues { n with
      c.owner := update n.c.owner s none
      g.place := fun m => Net.afterAbandon s (n.g.place m) } := by
  have hu := hi.unref (c := s)
  have hne : ∀ x o, update n.c.owner s none x = some o → x ≠ s := by
    rintro x o hx rfl
    simp at hx
  constructor
  case imsgq_nodup => exact hu.imsgq_nodup
  case omsgq_nodup => exact hu.omsgq_nodup
  case imsgq =>
    intro x hx m
    obtain ⟨o, ho⟩ := Option.ne_none_iff_exists'.mp hx
    simpa [Net.afterAbandon_srv, hne x o ho] using hu.imsgq x hx m
  case omsgq_server =>
    rintro x ⟨p, i, hx⟩ m
    simpa [Net.afterAbandon_srv, hne x _ hx] using hu.omsgq_server x ⟨p, i, hx⟩ m
  case omsgq_client =>
    rintro x ⟨p, hx⟩ m
    simpa [Net.afterAbandon_cli] using hu.omsgq_client x ⟨p, hx⟩ m
  case rmsg =>
    intro x hx m
    obtain ⟨o, ho⟩ := Option.ne_none_iff_exists'.mp hx
    simpa [Net.afterAbandon_reading (hne x o ho)] using hu.rmsg x hx m

include hs

/-- Server connection `s` is abandoned. -/
lemma Facts.abandon (hi : Facts n) :
    Facts { n with
      c.owner := update n.c.owner s none
      g.place := fun m => Net.afterAbandon s (n.g.place m) } := by
  constructor
  case reading =>
    intro y c hy
    change Net.afterAbandon s (n.g.place y) = _ at hy
    have hne : c ≠ s := by
      rintro rfl
      cases hx : n.g.place y with
      | reading c' =>
        by_cases hc' : c' = c
        · simp [hx, Net.afterAbandon, hc'] at hy
        · simp [hx, Net.afterAbandon, hc'] at hy
      | req cli srv =>
        rcases srv with _ | ⟨s', b⟩
        · simp [hx, Net.afterAbandon] at hy
        · by_cases hs' : s' = c <;> by_cases hcli : cli = none <;>
            simp [hx, Net.afterAbandon, hs', hcli] at hy
      | _ => simp [hx, Net.afterAbandon] at hy
    rw [Net.afterAbandon_reading hne] at hy
    simpa [Net.Of, hne] using hi.reading y c hy
  case cli =>
    intro y c srv hy
    obtain ⟨srv', hy'⟩ := Net.afterAbandon_cli.mp ⟨srv, hy⟩
    have hfacts := hi.cli y c srv' hy'
    have hne : c ≠ s := by
      rintro rfl
      obtain ⟨p, hp⟩ := hfacts.1
      obtain ⟨p', i, hp'⟩ := hs
      simp [hp] at hp'
    simpa [Net.Of, Net.Client, hne] using hfacts
  case srv =>
    intro y cli s' b hy
    obtain ⟨hne, hy'⟩ := Net.afterAbandon_srv.mp hy
    simpa [Net.Server, hne] using hi.srv y cli s' b hy'
  case rsp =>
    intro r p hr
    obtain ⟨hp, hr', cli, hcli⟩ := hi.rsp r p (Net.afterAbandon_rsp.mp hr)
    exact ⟨hp, hr', cli, by simp [hcli, Net.afterAbandon]⟩
  case peer =>
    intro p cli r hp hr
    rcases Net.afterAbandon_none hp with hp' | ⟨b, hp'⟩
    · exact Net.afterAbandon_rsp.mpr (hi.peer p cli r hp' hr)
    · have hnone := (hi.srv p cli s b hp').2.2.2.1
      change n.m.peer p = some r at hr
      simp [hnone] at hr

end Abandon

end GfwProxy
