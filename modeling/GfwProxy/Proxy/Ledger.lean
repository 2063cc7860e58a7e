import Mathlib.Data.List.Count
import GfwProxy.Proxy.State

set_option autoImplicit false

/-!
# The ledger of connections

What the functions that open, connect and close connections keep account of: who owns a connection,
which connections a server has, which are free, and how many are connected.

## Main definitions

* `GfwProxy.Link`, `GfwProxy.Ledger` — what opening, connecting and closing write of a connection
  and of the proxy; `GfwProxy.St.ledger` is that part of the state.
* `GfwProxy.Ledger.Good`, `GfwProxy.Ledger.Ok` — the invariant, with any or with the right
  predicate of the connections of servers.

## Main results

* `GfwProxy.Ledger.Good.update`, `GfwProxy.Ledger.Good.remove`, `GfwProxy.Ledger.Good.join`,
  `GfwProxy.Ledger.Good.setLink`, `GfwProxy.Ledger.Good.release` — the invariant when a connection
  changes, leaves or joins a server, or is released.

## Design

While a connection is being opened or closed the invariant holds of the others only, so it is
stated for any predicate of the connections.
-/

namespace GfwProxy

/-- What opening, connecting and closing write of a connection. -/
structure Link where
  owner : Option Owner
  sd : ℤ
  client : Bool
  connecting : Bool
  connected : Bool
  out : List UInt8
  posted : List ℕ
  deriving DecidableEq, Repr

/-- The part of a connection that is in the ledger. -/
def Conn.link (x : Conn) : Link where
  owner := x.owner
  sd := x.sd
  client := x.client
  connecting := x.connecting
  connected := x.connected
  out := x.out
  posted := x.posted

/-- What opening, connecting and closing write: the queues of server connections, the free list
and the next address, the connections, and the gauge `server_connections` of each server. -/
@[ext]
structure Ledger where
  connq : ℕ → ℕ → List ConnId
  free : List ConnId
  next : ConnId
  link : ConnId → Link
  gauge : ℕ → ℕ → ℤ

/-- The ledger of the proxy. -/
def St.ledger (σ : St) : Ledger where
  connq := σ.heap.sConnq
  free := σ.heap.freeConnq
  next := σ.heap.nextConn
  link := fun c => (σ.heap.conn c).link
  gauge := fun p i => σ.serverStat p i .serverConnections

/-! ## The invariant -/

/-- What holds of an open server connection: it is either being connected or connected, and
`post_connect` is called in between, before any byte is written. -/
structure Link.Ok (x : Link) : Prop where
  sd : 0 < x.sd
  client : x.client = false
  connecting : x.connecting = !x.connected
  posted : x.posted = if x.connected then [0] else []
  out : x.connected = false → x.out = []

/-- What holds of a server connection that is not opened yet. -/
structure Link.New (x : Link) : Prop where
  sd : x.sd = -1
  client : x.client = false
  connecting : x.connecting = false
  connected : x.connected = false
  posted : x.posted = []
  out : x.out = []

namespace Ledger

/-- Replace what is kept of connection `c`. -/
def setLink (c : ConnId) (x : Link) (l : Ledger) : Ledger :=
  { l with link := Function.update l.link c x }

/-- Replace the connections of server `i` of pool `p`. -/
def setConnq (p i : ℕ) (q : List ConnId) (l : Ledger) : Ledger :=
  { l with connq := fun p' i' => if p' = p ∧ i' = i then q else l.connq p' i' }

/-- Replace the gauge of server `i` of pool `p`. -/
def setGauge (p i : ℕ) (v : ℤ) (l : Ledger) : Ledger :=
  { l with gauge := fun p' i' => if p' = p ∧ i' = i then v else l.gauge p' i' }

/-- How many connections of server `i` of pool `p` are connected. -/
def count (l : Ledger) (p i : ℕ) : ℕ := (l.connq p i).countP fun s => (l.link s).connected

/-- The free list holds connections without an owner, each of them once, the connections of a
server are those that it owns, each of them once and with `P`, and the gauges count those that are
connected. -/
structure Good (P : ConnId → Link → Prop) (l : Ledger) : Prop where
  nodup_free : l.free.Nodup
  free : ∀ c ∈ l.free, c < l.next ∧ (l.link c).owner = none
  fresh : ∀ c, l.next ≤ c → (l.link c).owner = none
  nodup : ∀ p i, (l.connq p i).Nodup
  owner : ∀ p i s, s ∈ l.connq p i ↔ (l.link s).owner = some (.server p i)
  link : ∀ p i, ∀ s ∈ l.connq p i, P s (l.link s)
  gauge : ∀ p i, l.gauge p i = l.count p i

/-- Connection `c` is neither free nor yet to be allocated. -/
structure Taken (c : ConnId) (l : Ledger) : Prop where
  free : c ∉ l.free
  next : c < l.next

/-- The invariant. -/
def Ok (l : Ledger) : Prop := l.Good fun _ => Link.Ok

variable {P Q : ConnId → Link → Prop} {l : Ledger} {p i : ℕ} {c s : ConnId} {x : Link}

/-- The links of other connections are kept. -/
lemma setLink_link_ne (hne : c ≠ s) : (l.setLink s x).link c = l.link c :=
  Function.update_of_ne hne _ _

/-- The link that was set. -/
@[simp] lemma setLink_link : (l.setLink s x).link s = x := Function.update_self ..

/-- The list that was set. -/
@[simp] lemma setConnq_connq (q : List ConnId) : (l.setConnq p i q).connq p i = q := by
  simp [setConnq]

/-- Setting a link keeps the lists. -/
@[simp] lemma setLink_connq : (l.setLink s x).connq = l.connq := rfl

/-- Setting a list keeps the links. -/
@[simp] lemma setConnq_link (q : List ConnId) : (l.setConnq p i q).link = l.link := rfl

/-- The link that was set last counts. -/
@[simp] lemma setLink_setLink {y : Link} : (l.setLink s x).setLink s y = l.setLink s y := by
  simp [setLink]

/-- Setting a link and setting a list commute. -/
lemma setConnq_setLink (q : List ConnId) :
    (l.setConnq p i q).setLink s x = (l.setLink s x).setConnq p i q := rfl

/-- The lists of other servers are kept. -/
lemma setConnq_connq_ne {p' i' : ℕ} (q : List ConnId) (hne : ¬(p' = p ∧ i' = i)) :
    (l.setConnq p i q).connq p' i' = l.connq p' i' := by
  simp [setConnq, hne]

/-- What every listed connection satisfies may be weakened. -/
lemma Good.mono (hl : l.Good P) (hP : ∀ p i, ∀ s ∈ l.connq p i, P s (l.link s) → Q s (l.link s)) :
    l.Good Q :=
  { hl with link := fun p i s hs => hP p i s hs (hl.link p i s hs) }

/-- A connection with an owner is neither free nor yet to be allocated. -/
lemma Good.taken (hl : l.Good P) (ho : (l.link c).owner ≠ none) : c ∉ l.free ∧ c < l.next := by
  constructor
  · intro hc
    exact ho (hl.free c hc).2
  · by_contra hc
    exact ho (hl.fresh c (not_lt.mp hc))

/-- The count of a server that does not own connection `c` does not depend on it. -/
lemma count_setLink_of_notMem (hc : c ∉ l.connq p i) : (l.setLink c x).count p i = l.count p i := by
  apply List.countP_congr
  intro s hs
  have hne : s ≠ c := by
    rintro rfl
    exact hc hs
  rw [setLink_link_ne hne]

/-- The count of a server that owns connection `s`, without that connection. -/
lemma count_eq (hs : s ∈ l.connq p i) :
    l.count p i = ((l.connq p i).erase s).countP (fun c => (l.link c).connected) +
      if (l.link s).connected then 1 else 0 := by
  unfold count
  rw [(List.perm_cons_erase hs).countP_eq, List.countP_cons]

/-- Another connection can be changed in any way as long as no server owns it. -/
theorem Good.setLink (hl : l.Good P) (hfree : c ∉ l.free) (hnext : c < l.next)
    (ho : ∀ p i, (l.link c).owner ≠ some (.server p i)) (hx : ∀ p i, x.owner ≠ some (.server p i)) :
    (l.setLink c x).Good P := by
  have hmem : ∀ p i, c ∉ l.connq p i := fun p i hc => ho p i ((hl.owner p i c).mp hc)
  have hne : ∀ p i, ∀ s ∈ l.connq p i, s ≠ c := by
    rintro p i s hs rfl
    exact hmem p i hs
  constructor
  case nodup_free => exact hl.nodup_free
  case free =>
    intro s hs
    have hsc : s ≠ c := by
      rintro rfl
      exact hfree hs
    rw [setLink_link_ne hsc]
    exact hl.free s hs
  case fresh =>
    intro s hs
    rw [setLink_link_ne (lt_of_lt_of_le hnext hs).ne']
    exact hl.fresh s hs
  case nodup => exact hl.nodup
  case owner =>
    intro p i s
    rcases eq_or_ne s c with rfl | hsc
    · simp only [setLink_link, hx, iff_false]
      exact hmem p i
    · rw [setLink_link_ne hsc]
      exact hl.owner p i s
  case link =>
    intro p i s hs
    rw [setLink_link_ne (hne p i s hs)]
    exact hl.link p i s hs
  case gauge =>
    intro p i
    rw [count_setLink_of_notMem (hmem p i)]
    exact hl.gauge p i

/-- A connection changes, but neither its owner nor whether it is connected. -/
lemma Good.touch (hl : l.Good P) (ho : x.owner = (l.link c).owner)
    (hc : x.connected = (l.link c).connected) (hx : ∀ p i, c ∈ l.connq p i → P c x) :
    (l.setLink c x).Good P := by
  have howner : ∀ s, ((l.setLink c x).link s).owner = (l.link s).owner := by
    intro s
    rcases eq_or_ne s c with rfl | hne
    · rw [setLink_link, ho]
    · rw [setLink_link_ne hne]
  have hconnected : ∀ s, ((l.setLink c x).link s).connected = (l.link s).connected := by
    intro s
    rcases eq_or_ne s c with rfl | hne
    · rw [setLink_link, hc]
    · rw [setLink_link_ne hne]
  constructor
  case nodup_free => exact hl.nodup_free
  case free => exact fun s hs => ⟨(hl.free s hs).1, (howner s).trans (hl.free s hs).2⟩
  case fresh => exact fun s hs => (howner s).trans (hl.fresh s hs)
  case nodup => exact hl.nodup
  case owner =>
    intro p i s
    rw [howner]
    exact hl.owner p i s
  case link =>
    intro p i s hs
    rcases eq_or_ne s c with rfl | hne
    · rw [setLink_link]
      exact hx p i hs
    · rw [setLink_link_ne hne]
      exact hl.link p i s hs
  case gauge =>
    intro p i
    refine (hl.gauge p i).trans (congrArg Nat.cast ?_)
    unfold count
    simp only [hconnected, setLink_connq]

/-- A connection that no server owns is released. -/
theorem Good.release (hl : l.Good P) (hc : (l.link c).owner ≠ none)
    (ho : ∀ p i, (l.link c).owner ≠ some (.server p i)) (hx : x.owner = none) :
    Ledger.Good P { l.setLink c x with free := c :: l.free } := by
  obtain ⟨hfree, hnext⟩ := hl.taken hc
  have hset : (l.setLink c x).Good P := hl.setLink hfree hnext ho fun p i => by simp [hx]
  refine { hset with nodup_free := ?_, free := ?_ }
  · exact List.nodup_cons.mpr ⟨hfree, hl.nodup_free⟩
  · intro s hs
    rcases List.mem_cons.mp hs with rfl | hs
    · exact ⟨hnext, by simp [hx]⟩
    · exact hset.free s hs

/-- The first connection of the free list is taken. -/
lemma Good.pop {rest : List ConnId} (hl : l.Good P) (hfree : l.free = c :: rest) :
    Ledger.Good P { l with free := rest } ∧ c ∉ rest ∧ c < l.next ∧ (l.link c).owner = none := by
  have hnodup := hl.nodup_free
  rw [hfree, List.nodup_cons] at hnodup
  have hrest : ∀ s ∈ rest, s ∈ l.free := by
    intro s hs
    rw [hfree]
    exact List.mem_cons_of_mem c hs
  have hc := hl.free c (by rw [hfree]; exact List.mem_cons_self)
  exact ⟨{ hl with nodup_free := hnodup.2, free := fun s hs => hl.free s (hrest s hs) },
    hnodup.1, hc.1, hc.2⟩

/-- The next address is allocated. -/
lemma Good.grow (hl : l.Good P) :
    Ledger.Good P { l with next := l.next + 1 } ∧ l.next ∉ l.free ∧
    (l.link l.next).owner = none := by
  have hnext := hl.fresh l.next le_rfl
  refine ⟨{ hl with free := ?_, fresh := ?_ }, ?_, hnext⟩
  · intro c hc
    exact ⟨Nat.lt_succ_of_lt (hl.free c hc).1, (hl.free c hc).2⟩
  · exact fun c hc => hl.fresh c (Nat.le_of_succ_le hc)
  · intro hmem
    exact Nat.lt_irrefl _ (hl.free _ hmem).1

/-- A connection of a server changes, and the gauge follows.

**Proof sketch.** The lists do not change, and the count of connected ones changes by what the
connection adds to it. -/
theorem Good.update {g : ℕ → ℕ → ℤ} (hl : l.Good P) (hs : s ∈ l.connq p i)
    (ho : x.owner = some (.server p i)) (hP : ∀ c, c ≠ s → ∀ y, P c y → Q c y) (hx : Q s x)
    (hg : g p i + (if (l.link s).connected then 1 else 0) =
      l.gauge p i + if x.connected then 1 else 0)
    (hg' : ∀ p' i', ¬(p' = p ∧ i' = i) → g p' i' = l.gauge p' i') :
    Ledger.Good Q { l.setLink s x with gauge := g } := by
  have hos := (hl.owner p i s).mp hs
  have htaken := hl.taken (c := s) (by simp [hos])
  have hmem : ∀ p' i', s ∈ l.connq p' i' → p' = p ∧ i' = i := by
    intro p' i' hs'
    have h := (hl.owner p' i' s).mp hs'
    rw [hos] at h
    cases h
    exact ⟨rfl, rfl⟩
  constructor
  case nodup_free => exact hl.nodup_free
  case free =>
    intro c hc
    have hne : c ≠ s := by
      rintro rfl
      exact htaken.1 hc
    rw [setLink_link_ne hne]
    exact hl.free c hc
  case fresh =>
    intro c hc
    rw [setLink_link_ne (lt_of_lt_of_le htaken.2 hc).ne']
    exact hl.fresh c hc
  case nodup => exact hl.nodup
  case owner =>
    intro p' i' c
    rcases eq_or_ne c s with rfl | hne
    · rw [setLink_link, ho, ← hos]
      exact hl.owner p' i' c
    · rw [setLink_link_ne hne]
      exact hl.owner p' i' c
  case link =>
    intro p' i' c hc
    rcases eq_or_ne c s with rfl | hne
    · rw [setLink_link]
      exact hx
    · rw [setLink_link_ne hne]
      exact hP c hne _ (hl.link p' i' c hc)
  case gauge =>
    intro p' i'
    by_cases hpi : p' = p ∧ i' = i
    · obtain ⟨rfl, rfl⟩ := hpi
      have hold := hl.gauge p' i'
      rw [count_eq hs] at hold
      have hnew : (l.setLink s x).count p' i' =
          ((l.connq p' i').erase s).countP (fun c => (l.link c).connected) +
            if x.connected then 1 else 0 := by
        have h := count_eq (l := l.setLink s x) hs
        rw [setLink_link] at h
        rw [h]
        congr 1
        apply List.countP_congr
        intro c hc
        rw [setLink_link_ne ((hl.nodup p' i').mem_erase_iff.mp hc).1]
      change g p' i' = ((l.setLink s x).count p' i' : ℤ)
      rw [hnew]
      push_cast at hold ⊢
      omega
    · change g p' i' = ((l.setLink s x).count p' i' : ℤ)
      rw [hg' p' i' hpi, count_setLink_of_notMem fun hc => hpi (hmem p' i' hc)]
      exact hl.gauge p' i'

/-- A connection leaves its server and is released, and the gauge follows.

**Proof sketch.** By the invariant no other list has the connection, so the others are kept; in its
own list the count loses what the connection added to it. -/
theorem Good.remove {g : ℕ → ℕ → ℤ} (hl : l.Good P) (hos : (l.link s).owner = some (.server p i))
    (hx : x.owner = none) (hP : ∀ c, c ≠ s → ∀ y, P c y → Q c y)
    (hg : g p i + (if (l.link s).connected then 1 else 0) = l.gauge p i)
    (hg' : ∀ p' i', ¬(p' = p ∧ i' = i) → g p' i' = l.gauge p' i') :
    Ledger.Good Q { (l.setLink s x).setConnq p i ((l.connq p i).erase s) with
      free := s :: l.free, gauge := g } := by
  have htaken := hl.taken (c := s) (by simp [hos])
  have hs := (hl.owner p i s).mpr hos
  have hconnq : ∀ p' i' c, c ∈ ((l.setLink s x).setConnq p i ((l.connq p i).erase s)).connq p' i' ↔
      c ∈ l.connq p' i' ∧ c ≠ s := by
    intro p' i' c
    by_cases hpi : p' = p ∧ i' = i
    · obtain ⟨rfl, rfl⟩ := hpi
      rw [setConnq_connq, (hl.nodup p' i').mem_erase_iff, and_comm]
    · rw [setConnq_connq_ne _ hpi]
      refine ⟨fun hc => ⟨hc, ?_⟩, fun hc => hc.1⟩
      rintro rfl
      have h := (hl.owner p' i' c).mp hc
      rw [hos] at h
      cases h
      exact hpi ⟨rfl, rfl⟩
  constructor
  case nodup_free => exact List.nodup_cons.mpr ⟨htaken.1, hl.nodup_free⟩
  case free =>
    intro c hc
    rcases eq_or_ne c s with rfl | hne
    · exact ⟨htaken.2, by simp [Ledger.setConnq, hx]⟩
    · have hc' := (List.mem_cons.mp hc).resolve_left hne
      exact ⟨(hl.free c hc').1, (congrArg Link.owner (setLink_link_ne hne)).trans (hl.free c hc').2⟩
  case fresh =>
    intro c hc
    have hne : c ≠ s := (lt_of_lt_of_le htaken.2 hc).ne'
    exact (congrArg Link.owner (setLink_link_ne hne)).trans (hl.fresh c hc)
  case nodup =>
    intro p' i'
    by_cases hpi : p' = p ∧ i' = i
    · obtain ⟨rfl, rfl⟩ := hpi
      change (((l.setLink s x).setConnq p' i' ((l.connq p' i').erase s)).connq p' i').Nodup
      rw [setConnq_connq]
      exact (hl.nodup p' i').erase s
    · change (((l.setLink s x).setConnq p i ((l.connq p i).erase s)).connq p' i').Nodup
      rw [setConnq_connq_ne _ hpi]
      exact hl.nodup p' i'
  case owner =>
    intro p' i' c
    rcases eq_or_ne c s with rfl | hne
    · refine iff_of_false (fun hc => ((hconnq p' i' c).mp hc).2 rfl) ?_
      simp [Ledger.setConnq, hx]
    · refine (hconnq p' i' c).trans ?_
      change _ ↔ ((l.setLink s x).link c).owner = _
      rw [setLink_link_ne hne, and_iff_left hne]
      exact hl.owner p' i' c
  case link =>
    intro p' i' c hc
    obtain ⟨hc, hne⟩ := (hconnq p' i' c).mp hc
    change Q c ((l.setLink s x).link c)
    rw [setLink_link_ne hne]
    exact hP c hne _ (hl.link p' i' c hc)
  case gauge =>
    intro p' i'
    have hcongr : ∀ c, c ≠ s → ((l.setLink s x).link c).connected = (l.link c).connected := by
      intro c hne
      rw [setLink_link_ne hne]
    by_cases hpi : p' = p ∧ i' = i
    · obtain ⟨rfl, rfl⟩ := hpi
      have hold := hl.gauge p' i'
      rw [count_eq hs] at hold
      change g p' i' =
        ((((l.setLink s x).setConnq p' i' ((l.connq p' i').erase s)).connq p' i').countP
        fun c => ((l.setLink s x).link c).connected : ℕ)
      rw [setConnq_connq]
      have hcount : ((l.connq p' i').erase s).countP (fun c => ((l.setLink s x).link c).connected) =
          ((l.connq p' i').erase s).countP fun c => (l.link c).connected := by
        apply List.countP_congr
        intro c hc
        rw [hcongr c ((hl.nodup p' i').mem_erase_iff.mp hc).1]
      rw [hcount]
      push_cast at hold
      omega
    · change g p' i' = ((((l.setLink s x).setConnq p i ((l.connq p i).erase s)).connq p' i').countP
        fun c => ((l.setLink s x).link c).connected : ℕ)
      rw [setConnq_connq_ne _ hpi, hg' p' i' hpi, hl.gauge p' i']
      have hnot : s ∉ l.connq p' i' := by
        intro hs'
        exact ((hconnq p' i' s).mp (by rwa [setConnq_connq_ne _ hpi])).2 rfl
      congr 1
      exact (count_setLink_of_notMem hnot).symm

/-- The connections of a server are reordered. -/
lemma Good.reorder {q : List ConnId} (hl : l.Good P) (hq : q.Perm (l.connq p i)) :
    (l.setConnq p i q).Good P := by
  have hperm : ∀ p' i', ((l.setConnq p i q).connq p' i').Perm (l.connq p' i') := by
    intro p' i'
    by_cases hpi : p' = p ∧ i' = i
    · obtain ⟨rfl, rfl⟩ := hpi
      rwa [setConnq_connq]
    · rw [setConnq_connq_ne _ hpi]
  refine { hl with nodup := ?_, owner := ?_, link := ?_, gauge := ?_ }
  · exact fun p' i' => (hperm p' i').nodup_iff.mpr (hl.nodup p' i')
  · exact fun p' i' c => (hperm p' i').mem_iff.trans (hl.owner p' i' c)
  · exact fun p' i' c hc => hl.link p' i' c ((hperm p' i').mem_iff.mp hc)
  · intro p' i'
    refine (hl.gauge p' i').trans (congrArg Nat.cast ?_)
    exact ((hperm p' i').countP_eq fun c => (l.link c).connected).symm

/-- A connection without an owner joins a server, unconnected.

**Proof sketch.** The connection is in no list before, and adds nothing to the count as it is not
connected. -/
theorem Good.join (hl : l.Good P) (hfree : s ∉ l.free) (hnext : s < l.next)
    (ho : (l.link s).owner = none) (hx : x.owner = some (.server p i)) (hnew : x.connected = false)
    (hP : P s x) : ((l.setLink s x).setConnq p i (l.connq p i ++ [s])).Good P := by
  have hnot : ∀ p' i', s ∉ l.connq p' i' := by
    intro p' i' hs
    have h := (hl.owner p' i' s).mp hs
    rw [ho] at h
    cases h
  have hne : ∀ p' i', ∀ c ∈ l.connq p' i', c ≠ s := by
    rintro p' i' c hc rfl
    exact hnot p' i' hc
  have hconnq : ∀ p' i' c, c ∈ ((l.setLink s x).setConnq p i (l.connq p i ++ [s])).connq p' i' ↔
      c ∈ l.connq p' i' ∨ p' = p ∧ i' = i ∧ c = s := by
    intro p' i' c
    by_cases hpi : p' = p ∧ i' = i
    · obtain ⟨rfl, rfl⟩ := hpi
      simp
    · rw [setConnq_connq_ne _ hpi]
      exact ⟨Or.inl, fun h => h.resolve_right fun ⟨h₁, h₂, _⟩ => hpi ⟨h₁, h₂⟩⟩
  constructor
  case nodup_free => exact hl.nodup_free
  case free =>
    intro c hc
    have hcs : c ≠ s := by
      rintro rfl
      exact hfree hc
    change _ ∧ ((l.setLink s x).link c).owner = none
    rw [setLink_link_ne hcs]
    exact hl.free c hc
  case fresh =>
    intro c hc
    change ((l.setLink s x).link c).owner = none
    rw [setLink_link_ne (lt_of_lt_of_le hnext hc).ne']
    exact hl.fresh c hc
  case nodup =>
    intro p' i'
    by_cases hpi : p' = p ∧ i' = i
    · obtain ⟨rfl, rfl⟩ := hpi
      rw [setConnq_connq, ← List.concat_eq_append]
      exact (List.nodup_concat _ _).mpr ⟨hnot p' i', hl.nodup p' i'⟩
    · rw [setConnq_connq_ne _ hpi]
      exact hl.nodup p' i'
  case owner =>
    intro p' i' c
    refine (hconnq p' i' c).trans ?_
    change _ ↔ ((l.setLink s x).link c).owner = _
    rcases eq_or_ne c s with rfl | hcs
    · rw [setLink_link, hx]
      simp [hnot, eq_comm]
    · rw [setLink_link_ne hcs]
      simp [hcs, hl.owner p' i' c]
  case link =>
    intro p' i' c hc
    change P c ((l.setLink s x).link c)
    rcases (hconnq p' i' c).mp hc with hc | ⟨-, -, rfl⟩
    · rw [setLink_link_ne (hne p' i' c hc)]
      exact hl.link p' i' c hc
    · rwa [setLink_link]
  case gauge =>
    intro p' i'
    refine (hl.gauge p' i').trans (congrArg Nat.cast ?_)
    rw [← count_setLink_of_notMem (x := x) (hnot p' i')]
    unfold count
    change _ = (((l.setLink s x).setConnq p i (l.connq p i ++ [s])).connq p' i').countP
      fun c => ((l.setLink s x).link c).connected
    by_cases hpi : p' = p ∧ i' = i
    · obtain ⟨rfl, rfl⟩ := hpi
      rw [setConnq_connq, List.countP_append]
      simp [hnew, setLink_link]
    · rw [setConnq_connq_ne _ hpi]

end Ledger

end GfwProxy
