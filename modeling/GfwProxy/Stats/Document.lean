import GfwProxy.Lib.Json
import GfwProxy.Stats.Response

set_option autoImplicit false

/-!
# The response of the statistics port is a JSON text

Every call that prints leaves a comma behind the member that it has written, and the end of an
object puts its brace over the last comma.  So what the calls write for a pool or for a server is a
member of an object with a comma behind it.

## Main definitions

* `GfwProxy.statsValue` — the value that the response stands for.

## Main results

* `GfwProxy.foldl_members` — what calls in a row write, each a member with a comma.
* `GfwProxy.statsMakeRsp_decodes` — the response is the text of this value, and a newline.
-/

namespace GfwProxy

open Json (Derives Member Plain Ws quoted)

/-! ## The value of the response -/

/-- A metric as a member. -/
def metricMember (stm : StatsMetric) : Member := (stm.name, .num stm.value)

/-- A server as a member. -/
def serverMember (sts : StatsServer) : Member := (sts.name, .obj (sts.metric.map metricMember))

/-- A pool as a member: its metrics, and its servers. -/
def poolMember (stp : StatsPool) : Member :=
  (stp.name, .obj (stp.metric.map metricMember ++ stp.server.map serverMember))

/-- The fields of the header. -/
def headerMembers (st : StatsInput) : List Member :=
  [(serviceStr, .str service), (sourceStr, .str st.source), (versionStr, .str version),
    (uptimeStr, .num (st.curTs - st.startTs)), (timestampStr, .num st.curTs),
    (ntotalConnStr, .num st.ntotalConn), (ncurrConnStr, .num st.ncurrConn)]

/-- The value that the response stands for. -/
def statsValue (st : StatsInput) : Json.Value := .obj (headerMembers st ++ st.sum.map poolMember)

/-! ## Members with a comma -/

/-- Bytes that are appended: the text of a member with the property `E`, a comma and white space. -/
def WritesMember (E : List UInt8 → Prop) (f : List UInt8 → List UInt8) (m : Member)
    (w : List UInt8) : Prop :=
  ∃ t, Derives (.members [m]) t ∧ E t ∧ ∀ c, f c = c ++ t ++ [44] ++ w

/-- The last byte is a closing brace. -/
def EndsInBrace (t : List UInt8) : Prop := ∃ s, t = s ++ [125]

/-- A text ends as its last part does. -/
lemma EndsInBrace.append {t : List UInt8} (h : EndsInBrace t) (s : List UInt8) :
    EndsInBrace (s ++ t) := by
  obtain ⟨u, rfl⟩ := h
  exact ⟨s ++ u, (List.append_assoc s u [125]).symm⟩

section Members

variable {α : Type} {E : List UInt8 → Prop} {f : List UInt8 → α → List UInt8} {member : α → Member}
  {w : List UInt8}

/-- **Calls in a row** that each write a member write an object without its braces. -/
theorem foldl_members (hE : ∀ s t, E t → E (s ++ t)) (hw : Ws w) {l : List α} (hl : l ≠ [])
    (h : ∀ a ∈ l, WritesMember E (f · a) (member a) w) :
    ∃ t, Derives (.members (l.map member)) t ∧ E t ∧ ∀ c, l.foldl f c = c ++ t ++ [44] ++ w := by
  induction l with
  | nil => exact absurd rfl hl
  | cons a rest ih =>
    obtain ⟨t, ht, hEt, ha⟩ := h a List.mem_cons_self
    rcases rest with _ | ⟨b, rest⟩
    · exact ⟨t, ht, hEt, ha⟩
    · obtain ⟨u, hu, hEu, hrest⟩ := ih (List.cons_ne_nil b rest)
        fun x hx => h x (List.mem_cons_of_mem a hx)
      refine ⟨t ++ [44] ++ (w ++ u), ht.append (hu.ws hw), ?_, fun c => ?_⟩
      · rw [← List.append_assoc]
        exact hE _ u hEu
      · have hfa : f c a = c ++ t ++ [44] ++ w := ha c
        rw [List.foldl_cons, hfa, hrest]
        simp only [List.append_assoc]

end Members

/-! ## The members of the response -/

section Parts

variable {key val s c t : List UInt8}

/-- A plain text has no zero byte, so it is printed as a whole. -/
lemma printed_plain (h : Plain s) : printed s = s := by
  apply List.takeWhile_eq_self_iff.mpr
  intro x hx
  have hle := (h x hx).1
  rw [decide_eq_true_eq]
  rintro rfl
  exact absurd hle (by decide)

/-- No byte is white space. -/
lemma ws_nil : Ws [] := fun _ h => absurd h List.not_mem_nil

/-- A blank is white space. -/
lemma ws_space : Ws [32] := by
  intro x hx
  rw [List.mem_singleton.mp hx]
  rfl

/-- A key and a string. -/
lemma stringText_member (hk : Plain key) (hv : Plain val) :
    WritesMember (fun _ => True) (· ++ stringText key val) (key, .str val) [32] := by
  refine ⟨_, Derives.single hk (Derives.str hv) ws_nil ws_nil ws_nil ws_nil, trivial, fun c => ?_⟩
  simp [stringText, printed_plain hk, printed_plain hv, quoted]

/-- A key and a number. -/
lemma numText_member (hk : Plain key) (z : ℤ) :
    WritesMember (fun _ => True) (· ++ numText key z) (key, .num z) [32] := by
  refine ⟨_, Derives.single hk (Derives.num z) ws_nil ws_nil ws_nil ws_nil, trivial, fun c => ?_⟩
  simp [numText, printed_plain hk, quoted]

/-- The end of an object behind a number. -/
lemma endText_comma (c : List UInt8) : endText (c ++ [44, 32]) = c ++ [125, 44] := by
  have hlen : (c ++ [44, 32]).length - 2 = c.length := by simp
  have hget : (c ++ [44, 32])[c.length]? = some 44 := by simp
  rw [endText, hlen, if_pos hget, List.take_left]

/-- The end of an object behind an object. -/
lemma endText_brace (h : EndsInBrace c) : endText (c ++ [44]) = c ++ [125, 44] := by
  obtain ⟨s, rfl⟩ := h
  have hshape : s ++ [125] ++ [44] = s ++ [125, 44] := List.append_assoc s [125] [44]
  have hlen : (s ++ [125, 44]).length - 2 = s.length := by simp
  have hget : (s ++ [125, 44])[s.length]? = some 125 := by simp
  rw [hshape, endText, hlen, hget, if_neg (by decide), if_pos rfl, List.take_left,
    List.append_assoc]
  rfl

/-- An object with members that is closed. -/
lemma object_member {ms : List Member} (hk : Plain key) (ht : Derives (.members ms) t) :
    Derives (.members [(key, .obj ms)]) ([34] ++ key ++ [34, 58, 32, 123] ++ t ++ [125]) := by
  simpa [quoted] using Derives.single hk (Derives.obj ht) ws_nil ws_nil ws_space ws_nil

end Parts

/-! ## The response -/

instance (s : List UInt8) : Decidable (Plain s) :=
  inferInstanceAs (Decidable (∀ c ∈ s, 32 ≤ c.toNat ∧ c ≠ 34 ∧ c ≠ 92))

/-- The names of the metrics of a pool need no escapes. -/
lemma StatsPoolField.name_plain (field : StatsPoolField) : Plain field.name := by
  cases field <;> decide +kernel

/-- The names of the metrics of a server need no escapes. -/
lemma StatsServerField.name_plain (field : StatsServerField) : Plain field.name := by
  cases field <;> decide +kernel

/-- Metrics with names that need no escapes. -/
def PlainMetrics (metric : List StatsMetric) : Prop := metric ≠ [] ∧ ∀ stm ∈ metric, Plain stm.name

/-- Metrics in a row. -/
lemma metricText_members {metric : List StatsMetric} (h : PlainMetrics metric) :
    ∃ t, Derives (.members (metric.map metricMember)) t ∧
      ∀ c, metricText metric c = c ++ t ++ [44, 32] := by
  obtain ⟨t, ht, -, hfold⟩ := foldl_members (E := fun _ => True) (fun _ _ h => h) ws_space h.1
    fun stm hm => numText_member (h.2 stm hm) stm.value
  refine ⟨t, ht, fun c => ?_⟩
  rw [metricText, hfold, List.append_assoc]
  rfl

/-- **A server.** -/
lemma serverText_member {sts : StatsServer} (hname : Plain sts.name) (h : PlainMetrics sts.metric) :
    WritesMember EndsInBrace (serverText · sts) (serverMember sts) [] := by
  obtain ⟨t, ht, hmetric⟩ := metricText_members h
  refine ⟨_, object_member hname ht, ⟨_, rfl⟩, fun c => ?_⟩
  show endText (metricText sts.metric (c ++ beginText sts.name)) = _
  rw [hmetric, endText_comma]
  simp [beginText, printed_plain hname]

/-- **A pool.** -/
lemma poolText_member {stp : StatsPool} (hname : Plain stp.name) (h : PlainMetrics stp.metric)
    (hs : stp.server ≠ []) (hserver : ∀ sts ∈ stp.server, Plain sts.name ∧
      PlainMetrics sts.metric) :
    WritesMember EndsInBrace (poolText · stp) (poolMember stp) [] := by
  obtain ⟨t, ht, hmetric⟩ := metricText_members h
  obtain ⟨u, hu, hend, hservers⟩ := foldl_members (fun s t h => h.append s) ws_nil hs
    fun sts hm => serverText_member (hserver sts hm).1 (hserver sts hm).2
  refine ⟨_, object_member hname (ht.append (hu.ws ws_space)), ⟨_, rfl⟩, fun c => ?_⟩
  show endText (stp.server.foldl serverText (metricText stp.metric (c ++ beginText stp.name))) = _
  rw [hservers, hmetric, List.append_nil, endText_brace (hend.append _)]
  simp [beginText, printed_plain hname]

/-- **The header.** -/
lemma headerText_members {st : StatsInput} (hsource : Plain st.source) :
    ∃ t, Derives (.members (headerMembers st)) t ∧ headerText st = [123] ++ t ++ [44, 32] := by
  obtain ⟨l, hl⟩ : ∃ l : List (List UInt8 × Member), l =
      [(stringText serviceStr service, (serviceStr, .str service)),
        (stringText sourceStr st.source, (sourceStr, .str st.source)),
        (stringText versionStr version, (versionStr, .str version)),
        (numText uptimeStr (st.curTs - st.startTs), (uptimeStr, .num (st.curTs - st.startTs))),
        (numText timestampStr st.curTs, (timestampStr, .num st.curTs)),
        (numText ntotalConnStr st.ntotalConn, (ntotalConnStr, .num st.ntotalConn)),
        (numText ncurrConnStr st.ncurrConn, (ncurrConnStr, .num st.ncurrConn))] := ⟨_, rfl⟩
  have hmembers : ∀ p ∈ l, WritesMember (fun _ => True) (· ++ p.1) p.2 [32] := by
    intro p hp
    rw [hl] at hp
    simp only [List.mem_cons, List.not_mem_nil, or_false] at hp
    rcases hp with rfl | rfl | rfl | rfl | rfl | rfl | rfl
    · exact stringText_member (by decide +kernel) (by decide +kernel)
    · exact stringText_member (by decide +kernel) hsource
    · exact stringText_member (by decide +kernel) (by decide +kernel)
    · exact numText_member (by decide +kernel) _
    · exact numText_member (by decide +kernel) _
    · exact numText_member (by decide +kernel) _
    · exact numText_member (by decide +kernel) _
  have hne : l ≠ [] := by
    rw [hl]
    exact List.cons_ne_nil _ _
  obtain ⟨t, ht, -, hfold⟩ := foldl_members (E := fun _ => True) (f := fun c p => c ++ p.1)
    (fun _ _ h => h) ws_space hne hmembers
  refine ⟨t, ?_, ?_⟩
  · rw [hl] at ht
    exact ht
  · have hheader : headerText st = l.foldl (fun c p => c ++ p.1) [123] := by
      rw [hl]
      rfl
    rw [hheader, hfold, List.append_assoc]
    rfl

/-- **The response** for arrays of pools with names that need no escapes. -/
lemma responseText_derives {st : StatsInput} (hsource : Plain st.source) (hne : st.sum ≠ [])
    (hpool : ∀ stp ∈ st.sum, Plain stp.name ∧ PlainMetrics stp.metric ∧ stp.server ≠ [] ∧
      ∀ sts ∈ stp.server, Plain sts.name ∧ PlainMetrics sts.metric) :
    ∃ body, responseText st = body ++ [10] ∧ Derives (.value (statsValue st)) body := by
  obtain ⟨t, ht, hheader⟩ := headerText_members hsource
  obtain ⟨u, hu, -, hpools⟩ := foldl_members (fun s t h => h.append s) ws_nil hne fun stp hm =>
    poolText_member (hpool stp hm).1 (hpool stp hm).2.1 (hpool stp hm).2.2.1 (hpool stp hm).2.2.2
  refine ⟨[123] ++ (t ++ [44] ++ ([32] ++ u)) ++ [125], ?_,
    Derives.obj (ht.append (hu.ws ws_space))⟩
  rw [responseText, footerText, hpools, hheader, List.append_nil, List.dropLast_concat]
  simp

section Decodes

variable {pools : List PoolNames} {value : Metric → ℤ} {st : StatsInput} {b : StatsBuffer}

/-- The arrays that `stats_pool_map` makes of names that need no escapes. -/
lemma statsPoolMap_plain (hservers : ∀ pool ∈ pools, pool.server ≠ [])
    (hplain : ∀ pool ∈ pools, Plain pool.name ∧ ∀ name ∈ pool.server, Plain name) :
    ∀ stp ∈ statsPoolMap pools value, Plain stp.name ∧ PlainMetrics stp.metric ∧ stp.server ≠ [] ∧
      ∀ sts ∈ stp.server, Plain sts.name ∧ PlainMetrics sts.metric := by
  intro stp hstp
  obtain ⟨p, hp, rfl⟩ := List.mem_mapIdx.mp hstp
  have hmem : pools[p] ∈ pools := List.getElem_mem hp
  refine ⟨(hplain _ hmem).1, ⟨by simp [statsPoolCodec], fun stm hstm => ?_⟩, ?_, fun sts hsts => ?_⟩
  · obtain ⟨f, -, rfl⟩ := List.mem_map.mp hstm
    exact StatsPoolField.name_plain f.1
  · rw [Ne, List.mapIdx_eq_nil_iff]
    exact hservers _ hmem
  · obtain ⟨i, hi, rfl⟩ := List.mem_mapIdx.mp hsts
    refine ⟨(hplain _ hmem).2 _ (List.getElem_mem hi), by simp [statsServerCodec],
      fun stm hstm => ?_⟩
    obtain ⟨f, -, rfl⟩ := List.mem_map.mp hstm
    exact StatsServerField.name_plain f.1

/-- **The response is a JSON text and a newline**, and decoding it yields the fields of the header
and the pools in order, each with its metrics and its servers.  A call that succeeds leaves this in
a buffer of any size, and it succeeds if the buffer has the size that `stats_create_buf` computes.

**Proof sketch.** What is written for a metric, a server or a pool is a member of an object and a
comma, behind whatever was there before; a brace over the comma behind the last member closes the
object.  The decoder finds the value of every text of the grammar. -/
theorem statsMakeRsp_decodes (hsum : st.sum = statsPoolMap pools value) (hne : pools ≠ [])
    (hservers : ∀ pool ∈ pools, pool.server ≠ [])
    (hplain : ∀ pool ∈ pools, Plain pool.name ∧ ∀ name ∈ pool.server, Plain name)
    (hsource : Plain st.source) (h : st.Int64) (hb : b.data ≠ []) :
    (∀ b', statsMakeRsp st b = .ok (.ok, b') → ∃ body, b'.content = body ++ [10] ∧
      Derives (.value (statsValue st)) body ∧ Json.decode body = some (statsValue st)) ∧
    (statsBufSize st.source st.sum ≤ b.data.length → b.data.length < 2 ^ 31 →
      ∃ b', statsMakeRsp st b = .ok (.ok, b')) := by
  obtain ⟨hwritten, hok⟩ := statsMakeRsp_spec h hb
  constructor
  · intro b' hr
    have hsum_ne : st.sum ≠ [] := by
      rw [hsum, Ne, statsPoolMap, List.mapIdx_eq_nil_iff]
      exact hne
    obtain ⟨body, hbody, hd⟩ := responseText_derives hsource hsum_ne
      (hsum ▸ statsPoolMap_plain hservers hplain)
    exact ⟨body, (hwritten b' hr).1.trans hbody, hd, Json.decode_of_derives hd⟩
  · intro hsize hlt
    exact hok ((le_gfAlign _).trans hsize) hlt

end Decodes

/-- One pool with one server. -/
theorem alphaBuffer_decodes : ∃ b' body, statsMakeRsp alphaStats alphaBuffer = .ok (.ok, b') ∧
    b'.content = body ++ [10] ∧ Json.decode body = some (statsValue alphaStats) := by
  have hsum : alphaStats.sum = statsPoolMap alphaNames fun _ => -2 ^ 63 := rfl
  have hsize : statsBufSize alphaStats.source alphaStats.sum ≤ alphaBuffer.data.length := by
    decide +kernel
  have hlt : alphaBuffer.data.length < 2 ^ 31 := by
    decide +kernel
  obtain ⟨hwritten, hok⟩ := statsMakeRsp_decodes (b := alphaBuffer) hsum (by decide +kernel)
    (by decide +kernel) (by decide +kernel) (by decide +kernel) alphaStats_int64 (by decide +kernel)
  obtain ⟨b', hr⟩ := hok hsize hlt
  obtain ⟨body, hbody, -, hdecode⟩ := hwritten b' hr
  exact ⟨b', body, hr, hbody, hdecode⟩

end GfwProxy
