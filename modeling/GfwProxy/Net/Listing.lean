import GfwProxy.Net.Awake

set_option autoImplicit false

/-!
# The connections of a server

Every open server connection is in the queue of its server, so `server_close` finds it there.

## Main definitions

* `GfwProxy.Listed` — the invariant.

## Main results

* `GfwProxy.SendMoves.listed` — the moves keep it.
-/

namespace GfwProxy

open Function

variable {n n' : Net} {c s : ConnId}

/-- **Every open server connection is in the queue of its server.** -/
def Listed (n : Net) : Prop := ∀ s p i, n.c.owner s = some (.server p i) → s ∈ n.a.sConnq p i

/-- The lists and the owners decide whether the connections are listed. -/
lemma Listed.same (hl : Listed n) (ho : n'.c.owner = n.c.owner) (hq : n'.a.sConnq = n.a.sConnq) :
    Listed n' := by
  intro s p i hs
  rw [hq]
  exact hl s p i (by rwa [← ho])

/-- The timers do not change the lists of server connections. -/
@[simp] lemma Net.tmoDelete_sConnq (n : Net) (m : MsgId) :
    (n.tmoDelete m).a.sConnq = n.a.sConnq := by
  unfold Net.tmoDelete
  split <;> rfl

/-- A server connection leaves its server. -/
lemma Listed.unrefServer (hl : Listed n) (p i : ℕ) : Listed (n.unrefServer s p i) := by
  intro s' p' i' hs'
  have hne : s' ≠ s := by
    rintro rfl
    simp [Net.unrefServer] at hs'
  have hmem := hl s' p' i' (by simpa [Net.unrefServer, hne] using hs')
  by_cases he : p' = p ∧ i' = i
  · obtain ⟨rfl, rfl⟩ := he
    simpa [Net.unrefServer] using (List.mem_erase_of_ne hne).mpr hmem
  · simpa [Net.unrefServer, he] using hmem

/-- A move of a server connection keeps the lists. -/
lemma ServerMove.listed (h : ServerMove n n') (hl : Listed n) : Listed n' := by
  cases h with
  | openServer s p i hs =>
    intro s' p' i' hs'
    rcases eq_or_ne s' s with rfl | hne
    · obtain ⟨rfl, rfl⟩ : p = p' ∧ i = i' := by simpa [ConnCols.set] using hs'
      simp
    · have hmem := hl s' p' i' (by simpa [ConnCols.set, hne] using hs')
      by_cases he : p' = p ∧ i' = i
      · obtain ⟨rfl, rfl⟩ := he
        simpa using .inl hmem
      · simpa [he] using hmem
  | rotate p i s rest hq =>
    intro s' p' i' hs'
    have hmem := hl s' p' i' hs'
    by_cases he : p' = p ∧ i' = i
    · obtain ⟨rfl, rfl⟩ := he
      rw [hq] at hmem
      simpa [or_comm] using hmem
    · simpa [he] using hmem
  | unrefServer s p i ho hi hq hr => exact hl.unrefServer p i
  | abandon s p i ho ha => exact (hl.unrefServer (s := s) p i).same rfl rfl
  | dropIn s m hm => exact hl.same (by simp [Net.put, Net.deqIn]) (by simp [Net.put, Net.deqIn])
  | dropOut s m hm hs =>
    exact hl.same (by simp [Net.put, Net.deqOut]) (by simp [Net.put, Net.deqOut])
  | failIn s c m b hm hc =>
    exact hl.same (by simp [Net.setDue, Net.fail, Net.finish, Net.move, Net.deqIn])
      (by simp [Net.setDue, Net.fail, Net.finish, Net.move, Net.deqIn])
  | failOut s c m b hm hc hs =>
    exact hl.same (by simp [Net.setDue, Net.fail, Net.finish, Net.move, Net.deqOut])
      (by simp [Net.setDue, Net.fail, Net.finish, Net.move, Net.deqOut])
  | _ => exact hl.same rfl rfl

/-- One move keeps the lists: a connection is opened and listed, or taken off the list and
unreferenced, in one move. -/
lemma Move.listed (h : Move n n') (hl : Listed n) : Listed n' := by
  cases h with
  | server h => exact h.listed hl
  | openClient c p sd hc =>
    intro s p' i hs
    have hne : s ≠ c := by
      rintro rfl
      simp [ConnCols.set] at hs
    exact hl s p' i (by simpa [ConnCols.set, hne] using hs)
  | unrefClient c p ho hq hr =>
    intro s p' i hs
    have hne : s ≠ c := by
      rintro rfl
      simp at hs
    exact hl s p' i (by simpa [hne] using hs)
  | tmoDelete m => exact hl.same (by simp) (by simp)
  | failFwd c m b hm hd hc =>
    exact hl.same (by simp [Net.setDue, Net.fail, Net.finish])
      (by simp [Net.setDue, Net.fail, Net.finish])
  | respond s c p m rest b e hq hp hc hm hb hn =>
    refine hl.same ?_ ?_
    all_goals simp [Net.setDue, Net.fail, Net.finish, Net.move, Net.deqOut, Net.link, Net.emit]
  | swallowed s p rest hq hp =>
    exact hl.same (by simp [Net.put, Net.finish, Net.deqOut])
      (by simp [Net.put, Net.finish, Net.deqOut])
  | _ => exact hl.same rfl rfl

/-- The moves of sending keep the lists. -/
theorem SendMoves.listed (h : SendMoves n n') (hl : Listed n) : Listed n' := by
  induction h with
  | refl => exact hl
  | tail _ hm ih =>
    cases hm with
    | move hm => exact hm.listed ih
    | cursor c x => exact ih.same rfl rfl

end GfwProxy
