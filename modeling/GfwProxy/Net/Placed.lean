import GfwProxy.Net.Move

set_option autoImplicit false

/-!
# Every message is in its place

The invariant of the view that ties the places of the messages to the queues, links and free
lists, one lemma an operation.

## Main definitions

* `GfwProxy.Addresses` — the free lists and the addresses in use.
* `GfwProxy.Queues` — a message is in a queue exactly if that is its place.
* `GfwProxy.Facts` — what is known about a message from its place.
-/

namespace GfwProxy

open Function

/-- The free lists and the queues of the servers hold what they should. -/
structure Addresses (n : Net) : Prop where
  free_nodup : n.a.freeMsgq.Nodup
  free : ∀ m ∈ n.a.freeMsgq, n.g.place m = .free ∧ m < n.a.nextMsg
  used : ∀ m, n.g.place m ≠ .free → m < n.a.nextMsg
  cfree_nodup : n.a.freeConnq.Nodup
  cfree : ∀ c ∈ n.a.freeConnq, n.c.owner c = none ∧ c < n.a.nextConn
  cused : ∀ c, n.Open c → c < n.a.nextConn
  connq_nodup : ∀ p i, (n.a.sConnq p i).Nodup
  connq : ∀ p i, ∀ s ∈ n.a.sConnq p i, n.c.owner s = some (.server p i)
  pool_client : ∀ c, n.Client c → n.c.client c = true ∧ 0 ≤ n.c.sd c
  server_client : ∀ s, n.Server s → n.c.client s = false

/-- A message is in a queue of an open connection exactly if that is its place. -/
structure Queues (n : Net) : Prop where
  imsgq_nodup : ∀ s, n.Open s → (n.c.imsgq s).Nodup
  omsgq_nodup : ∀ s, n.Open s → (n.c.omsgq s).Nodup
  imsgq : ∀ s, n.Open s → ∀ m,
    m ∈ n.c.imsgq s ↔ ∃ cli, n.g.place m = .req cli (some (s, false))
  omsgq_server : ∀ s, n.Server s → ∀ m,
    m ∈ n.c.omsgq s ↔ ∃ cli, n.g.place m = .req cli (some (s, true))
  omsgq_client : ∀ c, n.Client c → ∀ m,
    m ∈ n.c.omsgq c ↔ ∃ srv, n.g.place m = .req (some c) srv
  rmsg : ∀ c, n.Open c → ∀ m, n.c.rmsg c = some m ↔ n.g.place m = .reading c

/-- What is known about a message from its place. -/
structure Facts (n : Net) : Prop where
  reading : ∀ m c, n.g.place m = .reading c →
    n.Open c ∧ n.Of m c ∧ n.m.Blank m ∧ n.m.fragOwner m = none ∧ n.m.fragId m = 0
  cli : ∀ m c srv, n.g.place m = .req (some c) srv →
    n.Client c ∧ n.Of m c ∧ n.m.swallow m = false
  srv : ∀ m cli s b, n.g.place m = .req cli (some (s, b)) →
    n.Server s ∧ n.m.done m = false ∧ n.m.error m = false ∧ n.m.peer m = none ∧
    (n.m.noreply m = true → b = false ∧ cli = none) ∧
    (n.m.noreply m = false → cli = none → n.m.swallow m = true)
  rsp : ∀ r p, n.g.place r = .rsp p → n.m.peer p = some r ∧ n.m.peer r = some p ∧
    ∃ cli, n.g.place p = .req cli none
  peer : ∀ p cli r, n.g.place p = .req cli none → n.m.peer p = some r → n.g.place r = .rsp p

variable {n : Net}

/-! ## Addresses -/

section Addresses

variable (hi : Addresses n) (m : MsgId) (s c : ConnId)

include hi

/-- A message in use is put in another place. -/
lemma Addresses.move {x : Place} (hm : n.g.place m ≠ .free) :
    Addresses (n.move m x) := by
  refine { hi with free := ?free, used := ?used }
  case free =>
    intro y hy
    have hne : y ≠ m := by
      rintro rfl
      exact hm (hi.free y hy).1
    simpa [Net.move, hne] using hi.free y hy
  case used =>
    intro y hy
    rcases eq_or_ne y m with rfl | hne
    · exact hi.used y hm
    · exact hi.used y (by simpa [Net.move, hne] using hy)

/-- A message in use is released. -/
lemma Addresses.put (hm : n.g.place m ≠ .free) : Addresses (n.put m) := by
  have hfree : m ∉ n.a.freeMsgq := fun hmem => hm (hi.free m hmem).1
  refine { hi with free_nodup := ?nodup, free := ?free, used := ?used }
  case nodup => exact List.nodup_cons.mpr ⟨hfree, hi.free_nodup⟩
  case free =>
    intro y hy
    rcases List.mem_cons.mp hy with rfl | hy
    · exact ⟨by simp [Net.put], hi.used y hm⟩
    · have hne : y ≠ m := fun he => hfree (he ▸ hy)
      simpa [Net.put, hne] using hi.free y hy
  case used =>
    intro y hy
    rcases eq_or_ne y m with rfl | hne
    · simp [Net.put] at hy
    · exact hi.used y (by simpa [Net.put, hne] using hy)

/-- Connection `c` stops being open; it has left the queue of its server. -/
lemma Addresses.unref {q : ℕ → ℕ → List ConnId} (hnodup : ∀ p i, (q p i).Nodup)
    (hsub : ∀ p i, ∀ x ∈ q p i, x ∈ n.a.sConnq p i ∧ x ≠ c) :
    Addresses { n with c.owner := update n.c.owner c none, a.sConnq := q } := by
  have hother : ∀ x, update n.c.owner c none x ≠ none → x ≠ c := by
    rintro x hx rfl
    simp at hx
  refine { hi with
    cfree := ?cfree, cused := ?cused, connq_nodup := hnodup, connq := ?connq
    pool_client := ?pool, server_client := ?server }
  case cfree =>
    intro x hx
    refine ⟨?_, (hi.cfree x hx).2⟩
    rcases eq_or_ne x c with rfl | hne
    · simp
    · simpa [hne] using (hi.cfree x hx).1
  case cused =>
    intro x hx
    exact hi.cused x (by simpa [Net.Open, hother x hx] using hx)
  case connq =>
    intro p i x hx
    obtain ⟨hmem, hne⟩ := hsub p i x hx
    simpa [hne] using hi.connq p i x hmem
  case pool =>
    rintro x ⟨p, hp⟩
    change update n.c.owner c none x = _ at hp
    have hne := hother x (by simp [hp])
    exact hi.pool_client x ⟨p, by simpa [hne] using hp⟩
  case server =>
    rintro x ⟨p, i, hp⟩
    change update n.c.owner c none x = _ at hp
    have hne := hother x (by simp [hp])
    exact hi.server_client x ⟨p, i, by simpa [hne] using hp⟩

/-- Connection `c` becomes open; it is appended to the queue of its server. -/
lemma Addresses.openConn {q : ℕ → ℕ → List ConnId} {x : Conn} {g : Ghost}
    (hc : n.FreshConn c) (hnodup : ∀ p i, (q p i).Nodup)
    (hsub : ∀ p i, ∀ y ∈ q p i, y ∈ n.a.sConnq p i ∨ y = c ∧ x.owner = some (.server p i))
    (hpool : ∀ p, x.owner = some (.pool p) → x.client = true ∧ 0 ≤ x.sd)
    (hserver : ∀ p i, x.owner = some (.server p i) → x.client = false)
    (hg : g.place = n.g.place) :
    Addresses { n with c := n.c.set c x, a.sConnq := q, g := g } := by
  refine { hi with
    free := ?free, used := ?used, cfree := ?cfree, cused := ?cused, connq_nodup := hnodup
    connq := ?connq, pool_client := ?pool, server_client := ?server }
  case free => simpa [hg] using hi.free
  case used => simpa [hg] using hi.used
  case cfree =>
    intro y hy
    have hne : y ≠ c := fun he => hc.free (he ▸ hy)
    simpa [ConnCols.set, hne] using hi.cfree y hy
  case cused =>
    intro y hy
    rcases eq_or_ne y c with rfl | hne
    · exact hc.lt
    · exact hi.cused y (by simpa [Net.Open, ConnCols.set, hne] using hy)
  case connq =>
    intro p i y hy
    rcases hsub p i y hy with hmem | ⟨rfl, ho⟩
    · have ho := hi.connq p i y hmem
      have hne : y ≠ c := by
        rintro rfl
        rw [hc.owner] at ho
        cases ho
      simpa [ConnCols.set, hne] using ho
    · simpa [ConnCols.set] using ho
  case pool =>
    rintro y ⟨p, hp⟩
    rcases eq_or_ne y c with rfl | hne
    · simpa [ConnCols.set] using hpool p (by simpa [ConnCols.set] using hp)
    · simpa [ConnCols.set, hne] using hi.pool_client y ⟨p, by simpa [ConnCols.set, hne] using hp⟩
  case server =>
    rintro y ⟨p, i, hp⟩
    rcases eq_or_ne y c with rfl | hne
    · simpa [ConnCols.set] using hserver p i (by simpa [ConnCols.set] using hp)
    · simpa [ConnCols.set, hne] using
        hi.server_client y ⟨p, i, by simpa [ConnCols.set, hne] using hp⟩

end Addresses

/-! ## Queues -/

/-- A place outside the queues. -/
def Place.Idle : Place → Prop
  | .reading _ => False
  | .req cli srv => cli = none ∧ srv = none
  | _ => True

section Queues

variable (hi : Queues n) {m : MsgId} {s c : ConnId} {cli : Option ConnId}
  {srv : Option (ConnId × Bool)}

include hi

/-- A message outside the queues gets another place outside the queues. -/
lemma Queues.move {x : Place} (hm : (n.g.place m).Idle) (hx : x.Idle) : Queues (n.move m x) := by
  refine { hi with
    imsgq := ?imsgq, omsgq_server := ?omsgq_server, omsgq_client := ?omsgq_client, rmsg := ?rmsg }
  case imsgq =>
    have := hi.imsgq
    simp only [Net.move]
    grind [update_apply, Place.Idle]
  case omsgq_server =>
    have := hi.omsgq_server
    simp only [Net.move]
    grind [update_apply, Place.Idle]
  case omsgq_client =>
    have := hi.omsgq_client
    simp only [Net.move]
    grind [update_apply, Place.Idle]
  case rmsg =>
    have := hi.rmsg
    simp only [Net.move]
    grind [update_apply, Place.Idle]

/-- Connection `c` begins to receive message `m`. -/
lemma Queues.read (hc : n.Open c) (hr : n.c.rmsg c = none) (hm : n.g.place m = .hand) :
    Queues ({ n with c.rmsg := update n.c.rmsg c (some m) }.move m (.reading c)) := by
  refine { hi with
    imsgq := ?imsgq, omsgq_server := ?omsgq_server, omsgq_client := ?omsgq_client, rmsg := ?rmsg }
  case imsgq =>
    have := hi.imsgq
    simp only [Net.move]
    grind [update_apply]
  case omsgq_server =>
    have := hi.omsgq_server
    simp only [Net.move]
    grind [update_apply]
  case omsgq_client =>
    have := hi.omsgq_client
    simp only [Net.move]
    grind [update_apply]
  case rmsg =>
    have := hi.rmsg
    simp only [Net.move]
    grind [update_apply]

/-- Connection `c` has received message `m`. -/
lemma Queues.unread (hc : n.Open c) (hr : n.c.rmsg c = some m) :
    Queues ({ n with c.rmsg := update n.c.rmsg c none }.move m .hand) := by
  have hm := (hi.rmsg c hc m).mp hr
  refine { hi with
    imsgq := ?imsgq, omsgq_server := ?omsgq_server, omsgq_client := ?omsgq_client, rmsg := ?rmsg }
  case imsgq =>
    have := hi.imsgq
    simp only [Net.move]
    grind [update_apply]
  case omsgq_server =>
    have := hi.omsgq_server
    simp only [Net.move]
    grind [update_apply]
  case omsgq_client =>
    have := hi.omsgq_client
    simp only [Net.move]
    grind [update_apply]
  case rmsg =>
    have := hi.rmsg
    simp only [Net.move]
    grind [update_apply]

/-- A request enters the in queue of a server connection. -/
lemma Queues.enqIn (hm : n.g.place m = .req cli none) (hs : n.Server s) :
    Queues ((n.enqIn s m).move m (.req cli (some (s, false)))) := by
  have hopen : n.Open s := by obtain ⟨p, i, hp⟩ := hs; simp [Net.Open, hp]
  have hnot : m ∉ n.c.imsgq s := by
    intro hmem
    obtain ⟨cli', h⟩ := (hi.imsgq s hopen m).mp hmem
    simp [hm] at h
  refine { hi with
    imsgq_nodup := ?nodup, imsgq := ?imsgq, omsgq_server := ?omsgq_server
    omsgq_client := ?omsgq_client, rmsg := ?rmsg }
  case nodup =>
    have := hi.imsgq_nodup
    simp only [Net.move, Net.enqIn]
    grind [update_apply]
  case imsgq =>
    intro s' hs' m'
    have hmem := hi.imsgq s' hs' m'
    rcases eq_or_ne m' m with rfl | hne <;> rcases eq_or_ne s' s with rfl | hne' <;>
      simp_all [Net.move, Net.enqIn, eq_comm]
  case omsgq_server =>
    have := hi.omsgq_server
    simp only [Net.move, Net.enqIn]
    grind [update_apply]
  case omsgq_client =>
    have := hi.omsgq_client
    simp only [Net.move, Net.enqIn]
    grind [update_apply]
  case rmsg =>
    have := hi.rmsg
    simp only [Net.move, Net.enqIn]
    grind [update_apply]

/-- A request leaves the in queue of a server connection. -/
lemma Queues.deqIn (hm : n.g.place m = .req cli (some (s, false))) :
    Queues ((n.deqIn s m).move m (.req cli none)) := by
  refine { hi with
    imsgq_nodup := ?nodup, imsgq := ?imsgq, omsgq_server := ?omsgq_server
    omsgq_client := ?omsgq_client, rmsg := ?rmsg }
  case nodup =>
    have := hi.imsgq_nodup
    simp only [Net.move, Net.deqIn]
    grind [update_apply, List.Nodup.erase]
  case imsgq =>
    have := hi.imsgq
    have := hi.imsgq_nodup
    simp only [Net.move, Net.deqIn]
    grind [update_apply, List.Nodup.mem_erase_iff]
  case omsgq_server =>
    have := hi.omsgq_server
    simp only [Net.move, Net.deqIn]
    grind [update_apply]
  case omsgq_client =>
    have := hi.omsgq_client
    simp only [Net.move, Net.deqIn]
    grind [update_apply]
  case rmsg =>
    have := hi.rmsg
    simp only [Net.move, Net.deqIn]
    grind [update_apply]

/-- A request enters the out queue of a server connection. -/
lemma Queues.enqOut (hm : n.g.place m = .req cli none) (hs : n.Server s) :
    Queues ((n.enqOut s m).move m (.req cli (some (s, true)))) := by
  have hnot : m ∉ n.c.omsgq s := by
    intro hmem
    obtain ⟨cli', h⟩ := (hi.omsgq_server s hs m).mp hmem
    simp [hm] at h
  refine { hi with
    omsgq_nodup := ?nodup, imsgq := ?imsgq, omsgq_server := ?omsgq_server
    omsgq_client := ?omsgq_client, rmsg := ?rmsg }
  case nodup =>
    have := hi.omsgq_nodup
    simp only [Net.move, Net.enqOut]
    grind [update_apply]
  case imsgq =>
    have := hi.imsgq
    simp only [Net.move, Net.enqOut]
    grind [update_apply]
  case omsgq_server =>
    intro s' hs' m'
    have hmem := hi.omsgq_server s' hs' m'
    rcases eq_or_ne m' m with rfl | hne <;> rcases eq_or_ne s' s with rfl | hne' <;>
      simp_all [Net.move, Net.enqOut, eq_comm]
  case omsgq_client =>
    have := hi.omsgq_client
    simp only [Net.move, Net.enqOut]
    grind [update_apply]
  case rmsg =>
    have := hi.rmsg
    simp only [Net.move, Net.enqOut]
    grind [update_apply]

/-- A request leaves the out queue of a server connection. -/
lemma Queues.deqOut (hm : n.g.place m = .req cli (some (s, true))) (hs : n.Server s) :
    Queues ((n.deqOut s m).move m (.req cli none)) := by
  refine { hi with
    omsgq_nodup := ?nodup, imsgq := ?imsgq, omsgq_server := ?omsgq_server
    omsgq_client := ?omsgq_client, rmsg := ?rmsg }
  case nodup =>
    have := hi.omsgq_nodup
    simp only [Net.move, Net.deqOut]
    grind [update_apply, List.Nodup.erase]
  case imsgq =>
    have := hi.imsgq
    simp only [Net.move, Net.deqOut]
    grind [update_apply]
  case omsgq_server =>
    have := hi.omsgq_server
    have := hi.omsgq_nodup
    simp only [Net.move, Net.deqOut]
    grind [update_apply, List.Nodup.mem_erase_iff]
  case omsgq_client =>
    have := hi.omsgq_client
    simp only [Net.move, Net.deqOut]
    grind [update_apply]
  case rmsg =>
    have := hi.rmsg
    simp only [Net.move, Net.deqOut]
    grind [update_apply]

/-- A request enters the queue of a client. -/
lemma Queues.expect (hm : n.g.place m = .req none srv) (hc : n.Client c) :
    Queues ((n.enqOut c m).move m (.req (some c) srv)) := by
  have hnot : m ∉ n.c.omsgq c := by
    intro hmem
    obtain ⟨srv', h⟩ := (hi.omsgq_client c hc m).mp hmem
    simp [hm] at h
  refine { hi with
    omsgq_nodup := ?nodup, imsgq := ?imsgq, omsgq_server := ?omsgq_server
    omsgq_client := ?omsgq_client, rmsg := ?rmsg }
  case nodup =>
    have := hi.omsgq_nodup
    simp only [Net.move, Net.enqOut]
    grind [update_apply]
  case imsgq =>
    have := hi.imsgq
    simp only [Net.move, Net.enqOut]
    grind [update_apply]
  case omsgq_server =>
    have := hi.omsgq_server
    simp only [Net.move, Net.enqOut]
    grind [update_apply]
  case omsgq_client =>
    intro c' hc' m'
    have hmem := hi.omsgq_client c' hc' m'
    rcases eq_or_ne m' m with rfl | hne <;> rcases eq_or_ne c' c with rfl | hne' <;>
      simp_all [Net.move, Net.enqOut, eq_comm]
  case rmsg =>
    have := hi.rmsg
    simp only [Net.move, Net.enqOut]
    grind [update_apply]

/-- A request leaves the queue of a client. -/
lemma Queues.leave (hm : n.g.place m = .req (some c) srv) (hc : n.Client c) :
    Queues ((n.deqOut c m).move m (.req none srv)) := by
  refine { hi with
    omsgq_nodup := ?nodup, imsgq := ?imsgq, omsgq_server := ?omsgq_server
    omsgq_client := ?omsgq_client, rmsg := ?rmsg }
  case nodup =>
    have := hi.omsgq_nodup
    simp only [Net.move, Net.deqOut]
    grind [update_apply, List.Nodup.erase]
  case imsgq =>
    have := hi.imsgq
    simp only [Net.move, Net.deqOut]
    grind [update_apply]
  case omsgq_server =>
    have := hi.omsgq_server
    simp only [Net.move, Net.deqOut]
    grind [update_apply]
  case omsgq_client =>
    have := hi.omsgq_client
    have := hi.omsgq_nodup
    simp only [Net.move, Net.deqOut]
    grind [update_apply, List.Nodup.mem_erase_iff]
  case rmsg =>
    have := hi.rmsg
    simp only [Net.move, Net.deqOut]
    grind [update_apply]

end Queues

end GfwProxy
