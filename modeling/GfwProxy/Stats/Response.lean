import GfwProxy.Conf.Server
import GfwProxy.Lib.Total
import GfwProxy.Stats.Aggregate

set_option autoImplicit false

/-!
# The response of the statistics port

`stats_make_rsp` of `gf_stats.c`, which prints the collected metrics to a buffer, and
`stats_create_buf`, which computes the size of that buffer from the names alone.

## Main definitions

* `GfwProxy.StatsPool`, `GfwProxy.statsPoolMap` — the array `sum` with its names.
* `GfwProxy.statsBufSize` — the size that `stats_create_buf` computes.
* `GfwProxy.statsMakeRsp` — the response.

## Main results

* `GfwProxy.Writes.makeRsp` — what a call that succeeds leaves in the buffer, and how much room
  makes it succeed.
* `GfwProxy.statsMakeRsp_fits` — the buffer is always large enough.

## Design

A function of this file appends to the buffer and may fail; `GfwProxy.Writes` says for such a
function what it makes of the bytes in the buffer if it succeeds, and by how many bytes it may fall
short of succeeding.  A write behind the end of the buffer is a fault of the model.  The size is a
natural number, as it is at most the number of bytes of all names in memory, and a constant for
each.
-/

namespace GfwProxy

/-! ## The metrics with their names -/

/-- The name of a metric of a pool. -/
def StatsPoolField.name : StatsPoolField → List UInt8
  | clientEof => "client_eof".toUTF8.toList
  | clientErr => "client_err".toUTF8.toList
  | clientConnections => "client_connections".toUTF8.toList
  | serverEjects => "server_ejects".toUTF8.toList
  | forwardError => "forward_error".toUTF8.toList
  | fragments => "fragments".toUTF8.toList

/-- The name of a metric of a server. -/
def StatsServerField.name : StatsServerField → List UInt8
  | serverEof => "server_eof".toUTF8.toList
  | serverErr => "server_err".toUTF8.toList
  | serverTimedout => "server_timedout".toUTF8.toList
  | serverConnections => "server_connections".toUTF8.toList
  | serverEjectedAt => "server_ejected_at".toUTF8.toList
  | requests => "requests".toUTF8.toList
  | requestBytes => "request_bytes".toUTF8.toList
  | responses => "responses".toUTF8.toList
  | responseBytes => "response_bytes".toUTF8.toList
  | inQueue => "in_queue".toUTF8.toList
  | inQueueBytes => "in_queue_bytes".toUTF8.toList
  | outQueue => "out_queue".toUTF8.toList
  | outQueueBytes => "out_queue_bytes".toUTF8.toList

/-- `struct stats_metric`; both values of the union are an `int64_t`. -/
structure StatsMetric where
  name : List UInt8
  value : ℤ

/-- `struct stats_server`. -/
structure StatsServer where
  name : List UInt8
  metric : List StatsMetric

/-- `struct stats_pool`. -/
structure StatsPool where
  name : List UInt8
  metric : List StatsMetric
  server : List StatsServer

/-- The name of a pool and those of its servers. -/
structure PoolNames where
  name : List UInt8
  server : List (List UInt8)

/-- `stats_pool_map`, with the values of an array of metrics. -/
def statsPoolMap (pools : List PoolNames) (value : Metric → ℤ) : List StatsPool :=
  pools.mapIdx fun p pool =>
    { name := pool.name
      metric := statsPoolCodec.map fun f => { name := f.1.name, value := value (.pool p f.1) }
      server := pool.server.mapIdx fun i name =>
        { name := name
          metric := statsServerCodec.map fun f =>
            { name := f.1.name, value := value (.server p i f.1) } } }

/-! ## The strings of `stats_create` -/

def serviceStr : List UInt8 := "service".toUTF8.toList

def service : List UInt8 := "nutcracker".toUTF8.toList

def sourceStr : List UInt8 := "source".toUTF8.toList

def versionStr : List UInt8 := "version".toUTF8.toList

/-- `GF_VERSION_STRING`. -/
def version : List UInt8 := "0.5.0".toUTF8.toList

def uptimeStr : List UInt8 := "uptime".toUTF8.toList

def timestampStr : List UInt8 := "timestamp".toUTF8.toList

def ntotalConnStr : List UInt8 := "total_connections".toUTF8.toList

def ncurrConnStr : List UInt8 := "curr_connections".toUTF8.toList

/-- What `stats_make_rsp` reads: parts of `struct stats`, the time, and the counts of connections as
`int64_t`. -/
structure StatsInput where
  source : List UInt8
  startTs : ℤ
  curTs : ℤ
  ntotalConn : ℤ
  ncurrConn : ℤ
  sum : List StatsPool

/-! ## The size of the buffer -/

/-- INT64_MAX = 9223372036854775807 -/
def int64MaxDigits : ℕ := 20

/-- "key": "value", -/
def keyValueExtra : ℕ := 8

/-- '"pool_name": { ' + ' }' -/
def poolExtra : ℕ := 8

/-- '"server_name": { ' + ' }' -/
def serverExtra : ℕ := 8

/-- `GF_ALIGN`, for a power of two. -/
def gfAlign (d n : ℕ) : ℕ := (d + (n - 1)) / n * n

/-- What `stats_create_buf` adds for metrics. -/
def metricSize (metric : List StatsMetric) : ℕ :=
  (metric.map fun stm => stm.name.length + int64MaxDigits + keyValueExtra).sum

/-- What `stats_create_buf` adds for a server. -/
def serverSize (sts : StatsServer) : ℕ := sts.name.length + serverExtra + metricSize sts.metric

/-- What `stats_create_buf` adds for a pool. -/
def poolSize (stp : StatsPool) : ℕ :=
  stp.name.length + poolExtra + metricSize stp.metric + (stp.server.map serverSize).sum

/-- What `stats_create_buf` adds for a key and a string. -/
def stringSize (key val : List UInt8) : ℕ := key.length + val.length + keyValueExtra

/-- What `stats_create_buf` adds for a key and a number. -/
def numSize (key : List UInt8) : ℕ := key.length + int64MaxDigits + keyValueExtra

/-- What `stats_create_buf` adds for the header, behind its first byte. -/
def headerSize (source : List UInt8) : ℕ :=
  stringSize serviceStr service + stringSize sourceStr source + stringSize versionStr version +
    numSize uptimeStr + numSize timestampStr + numSize ntotalConnStr + numSize ncurrConnStr

/-- The size of the buffer that `stats_create_buf` allocates. -/
def statsBufSize (source : List UInt8) (sum : List StatsPool) : ℕ :=
  gfAlign (1 + headerSize source + (sum.map poolSize).sum + 2) 8

/-! ## Printing to the buffer -/

/-- `struct stats_buffer`, where the size is that of the memory. -/
structure StatsBuffer where
  data : List UInt8
  len : ℕ

abbrev StatsCore := StateT StatsBuffer (Except Fault)

/-- One byte is written. -/
def poke (i : ℕ) (x : UInt8) : StatsCore Unit := do
  let buf ← get
  if i < buf.data.length then modify fun buf => { buf with data := buf.data.set i x }
  else throw .outOfBounds

/-- One byte is read. -/
def peek (i : ℕ) : StatsCore UInt8 := do
  let buf ← get
  match buf.data[i]? with
  | none => throw .outOfBounds
  | some x => return x

/-- What `%.*s` prints of a string: up to the first NUL, and a length that is no `int` does not
limit it. -/
def precision (s : List UInt8) : Except Fault (List UInt8) :=
  if s.length < 2 ^ 31 ∨ 0 ∈ s then .ok (s.takeWhile (· ≠ 0)) else .error .outOfBounds

/-- `gf_snprintf`, to the place `pos` of the buffer. -/
def gfSnprintf (pos room : ℕ) (text : List UInt8) : StatsCore ℤ := do
  let buf ← get
  let out := if room = 0 then [] else text.take (room - 1) ++ [0]
  if buf.data.length < pos + out.length then throw .outOfBounds
  else
    modify fun buf => { buf with
      data := buf.data.take pos ++ out ++ buf.data.drop (pos + out.length) }
    return if text.length < 2 ^ 31 then text.length else -1

/-- The room behind the bytes in the buffer, without its last byte: `size - len - 1` as a
`size_t`. -/
def StatsBuffer.room (buf : StatsBuffer) : ℕ :=
  (buf.data.length + (2 ^ 64 - 1) + (2 ^ 64 - buf.len)) % 2 ^ 64

/-- The common part of `stats_add_string`, `stats_add_num` and `stats_begin_nesting`: a text is
printed to the end of the buffer. -/
def statsPrint (text : Except Fault (List UInt8)) : StatsCore Rstatus := do
  let buf ← get
  let text ← liftM text
  let n ← gfSnprintf buf.len buf.room text
  if n < 0 ∨ int32 buf.room ≤ n then return .error
  else
    modify fun buf => { buf with len := buf.len + n.toNat }
    return .ok

/-- `stats_add_string`: `"\"%.*s\":\"%.*s\", "`. -/
def statsAddString (key val : List UInt8) : StatsCore Rstatus :=
  statsPrint do
    let key ← precision key
    let val ← precision val
    return [34] ++ key ++ [34, 58, 34] ++ val ++ [34, 44, 32]

/-- `stats_add_num`: `"\"%.*s\":%"PRId64", "`. -/
def statsAddNum (key : List UInt8) (val : ℤ) : StatsCore Rstatus :=
  statsPrint do
    let key ← precision key
    return [34] ++ key ++ [34, 58] ++ Decimal.ofInt val ++ [44, 32]

/-- `stats_begin_nesting`: `"\"%.*s\": {"`. -/
def statsBeginNesting (key : List UInt8) : StatsCore Rstatus :=
  statsPrint do
    let key ← precision key
    return [34] ++ key ++ [34, 58, 32, 123]

/-- `stats_end_nesting`. -/
def statsEndNesting : StatsCore Rstatus := do
  let buf ← get
  -- go back by 2 bytes
  if buf.len < 2 then throw .outOfBounds
  else
    let pos := buf.len - 2
    let last ← peek pos
    if last = 44 then
      -- ',': overwrite last two bytes; len remains unchanged
      poke pos 125
      poke (pos + 1) 44
      return .ok
    else if last = 125 then
      if buf.len = buf.data.length then return .error
      else
        -- '}': overwrite the last byte and add a new byte
        poke (pos + 1) 125
        poke (pos + 2) 44
        modify fun buf => { buf with len := buf.len + 1 }
        return .ok
    else return .ok

/-- `stats_add_footer`. -/
def statsAddFooter : StatsCore Rstatus := do
  let buf ← get
  if buf.len = buf.data.length then return .error
  else if buf.len = 0 then throw .outOfBounds
  else
    -- overwrite the last byte and add a new byte
    let pos := buf.len - 1
    poke pos 125
    poke (pos + 1) 10
    modify fun buf => { buf with len := buf.len + 1 }
    return .ok

/-- Calls in a row, up to the first one whose status is not `GF_OK`. -/
def statsAll : List (StatsCore Rstatus) → StatsCore Rstatus
  | [] => return .ok
  | x :: xs => do
    let status ← x
    if status ≠ .ok then return status
    else statsAll xs

/-- The calls of `stats_add_header`. -/
def headerCalls (st : StatsInput) : List (StatsCore Rstatus) :=
  [statsAddString serviceStr service, statsAddString sourceStr st.source,
    statsAddString versionStr version, statsAddNum uptimeStr (st.curTs - st.startTs),
    statsAddNum timestampStr st.curTs, statsAddNum ntotalConnStr st.ntotalConn,
    statsAddNum ncurrConnStr st.ncurrConn]

/-- `stats_add_header`. -/
def statsAddHeader (st : StatsInput) : StatsCore Rstatus := do
  poke 0 123
  modify fun buf => { buf with len := 1 }
  statsAll (headerCalls st)

/-- `stats_copy_metric`. -/
def statsCopyMetric (metric : List StatsMetric) : StatsCore Rstatus :=
  statsAll (metric.map fun stm => statsAddNum stm.name stm.value)

/-- The body of the loop of `stats_make_rsp` over the servers. -/
def statsAddServer (sts : StatsServer) : StatsCore Rstatus :=
  statsAll [statsBeginNesting sts.name, statsCopyMetric sts.metric, statsEndNesting]

/-- The body of the loop of `stats_make_rsp` over the pools. -/
def statsAddPool (stp : StatsPool) : StatsCore Rstatus :=
  statsAll [statsBeginNesting stp.name, statsCopyMetric stp.metric,
    statsAll (stp.server.map statsAddServer), statsEndNesting]

/-- `stats_make_rsp`. -/
def statsMakeRsp (st : StatsInput) : StatsCore Rstatus :=
  statsAll [statsAddHeader st, statsAll (st.sum.map statsAddPool), statsAddFooter]

/-! ## What a call writes -/

/-- The bytes in the buffer. -/
def StatsBuffer.content (buf : StatsBuffer) : List UInt8 := buf.data.take buf.len

/-- A call that makes `f` of bytes with `P` if it succeeds, and succeeds if there is room for `est`
more bytes and for two others. -/
structure Writes (P : List UInt8 → Prop) (x : StatsCore Rstatus)
    (f : List UInt8 → List UInt8) (est : ℕ) :
    Prop where
  content : ∀ {b b' : StatsBuffer}, b.len ≤ b.data.length → P b.content → x b = .ok (.ok, b') →
    b'.len ≤ b'.data.length ∧ b'.content = f b.content ∧ b'.data.length = b.data.length
  room : ∀ {b : StatsBuffer}, P b.content → b.len + est + 2 ≤ b.data.length →
    b.data.length < 2 ^ 31 → ∃ b', x b = .ok (.ok, b')
  length : ∀ c, P c → (f c).length ≤ c.length + est

section Rules

variable {P Q : List UInt8 → Prop} {x : StatsCore Rstatus} {xs : List (StatsCore Rstatus)}
  {f g : List UInt8 → List UInt8} {m n : ℕ} {b b' : StatsBuffer} {α : Type}

/-- The length of what was written so far. -/
lemma StatsBuffer.length_content (h : b.len ≤ b.data.length) : b.content.length = b.len := by
  rw [content, List.length_take, Nat.min_eq_left h]

/-- No calls. -/
lemma Writes.nil (P : List UInt8 → Prop) : Writes P (statsAll []) id 0 := by
  constructor
  · intro b b' hlen _ hr
    obtain ⟨-, rfl⟩ := (Exec.pure_ok _ _ _ _).mp hr
    exact ⟨hlen, rfl, rfl⟩
  · intro b _ _ _
    exact ⟨b, rfl⟩
  · intro c _
    exact le_rfl

/-- **The rule of calls in a row.** -/
lemma Writes.cons (hx : Writes P x f m) (hPQ : ∀ c, P c → Q (f c))
    (hxs : Writes Q (statsAll xs) g n) : Writes P (statsAll (x :: xs)) (g ∘ f) (m + n) := by
  constructor
  · intro b b' hlen hP hr
    obtain ⟨status, b₁, hr₁, hr⟩ := (Exec.bind_ok _ _ _ _ _).mp hr
    split_ifs at hr with hstatus
    · obtain ⟨rfl, -⟩ := (Exec.pure_ok _ _ _ _).mp hr
      exact absurd rfl hstatus
    · rw [not_not.mp hstatus] at hr₁
      obtain ⟨hlen₁, hc₁, hd₁⟩ := hx.content hlen hP hr₁
      obtain ⟨hlen', hc', hd'⟩ := hxs.content hlen₁ (hc₁ ▸ hPQ _ hP) hr
      refine ⟨hlen', ?_, hd'.trans hd₁⟩
      show b'.content = g (f b.content)
      rw [← hc₁, hc']
  · intro b hP hroom hsize
    have hlen : b.len ≤ b.data.length := by omega
    obtain ⟨b₁, hr₁⟩ := hx.room hP (by omega) hsize
    obtain ⟨hlen₁, hc₁, hd₁⟩ := hx.content hlen hP hr₁
    have hle := hx.length b.content hP
    rw [← hc₁, b₁.length_content hlen₁, b.length_content hlen] at hle
    obtain ⟨b', hr'⟩ := hxs.room (b := b₁) (hc₁ ▸ hPQ _ hP) (by omega) (by omega)
    refine ⟨b', (Exec.bind_ok _ _ _ _ _).mpr ⟨.ok, b₁, hr₁, ?_⟩⟩
    rw [if_neg (not_not.mpr rfl)]
    exact hr'
  · intro c hP
    have h₁ := hx.length c hP
    have h₂ := hxs.length (f c) (hPQ c hP)
    show (g (f c)).length ≤ _
    omega

/-- The rule of calls in a row that keep `P`. -/
lemma Writes.keep (hx : Writes P x f m) (hP : ∀ c, P c → P (f c))
    (hxs : Writes P (statsAll xs) g n) : Writes P (statsAll (x :: xs)) (g ∘ f) (m + n) :=
  hx.cons hP hxs

/-- **The rule of loops.** -/
lemma Writes.map {l : List α} {call : α → StatsCore Rstatus} {f : α → List UInt8 → List UInt8}
    {est : α → ℕ} (h : ∀ a ∈ l, Writes P (call a) (f a) (est a))
    (hP : ∀ a ∈ l, ∀ c, P c → P (f a c)) :
    Writes P (statsAll (l.map call)) (fun c => l.foldl (fun c a => f a c) c) (l.map est).sum := by
  induction l with
  | nil => exact Writes.nil P
  | cons a l ih =>
    have ha := h a List.mem_cons_self
    have hPa := hP a List.mem_cons_self
    rw [List.map_cons, List.map_cons, List.sum_cons]
    exact ha.cons hPa
      (ih (fun a hm => h a (List.mem_cons_of_mem _ hm)) fun a hm =>
        hP a (List.mem_cons_of_mem _ hm))

/-- More bytes may be asked for. -/
lemma Writes.mono (hx : Writes P x f m) (h : m ≤ n) : Writes P x f n := by
  refine ⟨hx.content, fun hP hroom hsize => hx.room hP (by omega) hsize, fun c hP => ?_⟩
  exact (hx.length c hP).trans (Nat.add_le_add_left h _)

/-- The calls write what is said of them in another way. -/
lemma Writes.congr (hx : Writes P x f m) (h : ∀ c, P c → f c = g c) : Writes P x g m := by
  refine ⟨fun hlen hP hr => ?_, hx.room, fun c hP => h c hP ▸ hx.length c hP⟩
  rw [← h _ hP]
  exact hx.content hlen hP hr

end Rules

/-! ## Printing -/

/-- What is printed of a string. -/
def printed (s : List UInt8) : List UInt8 := s.takeWhile (· ≠ 0)

/-- A text is printed up to its zero byte. -/
lemma length_printed_le (s : List UInt8) : (printed s).length ≤ s.length :=
  (List.takeWhile_sublist _).length_le

/-- The precision of a text is what is printed of it. -/
lemma eq_printed {s t : List UInt8} (h : precision s = .ok t) : t = printed s := by
  unfold precision at h
  split_ifs at h
  exact (Except.ok.inj h).symm

/-- A precision that fits an `int` is the number of bytes. -/
lemma precision_eq {s : List UInt8} (h : s.length < 2 ^ 31) : precision s = .ok (printed s) :=
  if_pos (Or.inl h)

/-- The bytes of a buffer with a text printed behind its first `n` bytes. -/
lemma take_print {data text : List UInt8} {n : ℕ} (hn : n ≤ data.length) (rest : List UInt8) :
    (data.take n ++ (text ++ [0]) ++ rest).take (n + text.length) = data.take n ++ text := by
  have hlen : (data.take n ++ text).length = n + text.length := by
    rw [List.length_append, List.length_take, Nat.min_eq_left hn]
  rw [← hlen, List.append_assoc, List.append_assoc, ← List.append_assoc, List.take_left]

/-- What `gf_snprintf` does. -/
lemma gfSnprintf_post {pos room : ℕ} {text : List UInt8} {b : StatsBuffer} :
    Exec.Post id (gfSnprintf pos room text) (fun n b' =>
      pos + (if room = 0 then [] else text.take (room - 1) ++ [0]).length ≤ b.data.length ∧
        n = (if text.length < 2 ^ 31 then (text.length : ℤ) else -1) ∧
        b' = { b with data := b.data.take pos ++
          (if room = 0 then [] else text.take (room - 1) ++ [0])
          ++ b.data.drop (pos + (if room = 0 then [] else text.take (room - 1) ++ [0]).length) })
          b := by
  refine Exec.Post.get (Exec.Post.ite (fun _ => Exec.Post.throw) fun h => ?_)
  exact Exec.Post.modify (Exec.Post.pure ⟨not_lt.mp h, rfl, rfl⟩)

/-- **Printing appends.** -/
lemma statsPrint_writes {T : Except Fault (List UInt8)} {t : List UInt8} {est : ℕ}
    (heq : ∀ t', T = .ok t' → t' = t) (hok : est < 2 ^ 31 → T = .ok t) (hlen : t.length ≤ est)
    (P : List UInt8 → Prop) : Writes P (statsPrint T) (· ++ t) est := by
  constructor
  · intro b b' hb _ hr
    have hpost : Exec.Post id (statsPrint T) (fun status b' => status = .ok →
        b'.len ≤ b'.data.length ∧ b'.content = b.content ++ t ∧
          b'.data.length = b.data.length) b := by
      refine Exec.Post.get ?_
      cases hT : T with
      | error e => exact Exec.Post.throw
      | ok t' =>
        obtain rfl := heq t' hT
        refine Exec.Post.lift (Exec.Post.call gfSnprintf_post fun n b₁ h₁ => ?_)
        obtain ⟨hroom, hn, rfl⟩ := h₁
        refine Exec.Post.ite (fun _ => Exec.Post.pure fun h => absurd h (by decide)) fun hfit => ?_
        refine Exec.Post.modify (Exec.Post.pure fun _ => ?_)
        -- the whole text is printed, with its NUL
        have hle := int32_le b.room
        have hsmall : t'.length < 2 ^ 31 := by
          by_contra hbig
          rw [if_neg hbig] at hn
          omega
        rw [if_pos hsmall] at hn
        have hout : (if b.room = 0 then [] else t'.take (b.room - 1) ++ [0]) = t' ++ [0] := by
          rw [if_neg (by omega), List.take_of_length_le (by omega)]
        rw [hout, List.length_append, List.length_singleton] at hroom
        have hnat : n.toNat = t'.length := by omega
        have hdata : (b.data.take b.len ++ (t' ++ [(0 : UInt8)]) ++
            b.data.drop (b.len + (t' ++ [(0 : UInt8)]).length)).length = b.data.length := by
          simp only [List.length_append, List.length_take, List.length_drop, List.length_singleton]
          omega
        simp only [hout, hnat]
        refine ⟨?_, take_print hb _, hdata⟩
        show b.len + t'.length ≤ _
        rw [hdata]
        omega
    exact hpost.elim rfl hr rfl
  · intro b _ hroom hsize
    have htotal : Exec.Total (statsPrint T) (fun status _ => status = .ok) b := by
      rw [hok (by omega)]
      have hr : b.room = b.data.length - b.len - 1 := by
        unfold StatsBuffer.room
        omega
      have hprint : Exec.Total (gfSnprintf b.len b.room t) (fun n b' => n = t.length) b := by
        refine Exec.Total.get (Exec.Total.ite (fun hover => ?_) fun _ => ?_)
        · exfalso
          have hout : (if b.room = 0 then [] else t.take (b.room - 1) ++ [0]).length ≤
              t.length + 1 := by
            split_ifs
            · exact Nat.zero_le _
            · rw [List.length_append, List.length_take, List.length_singleton]
              omega
          omega
        · refine Exec.Total.modify (Exec.Total.pure ?_)
          rw [if_pos (by omega)]
      refine Exec.Total.get (Exec.Total.lift (Exec.Total.bind hprint fun n b' hn => ?_))
      have hint : int32 b.room = b.room := int32_of_lt (by omega)
      refine Exec.Total.ite (fun hbad => ?_) fun _ => Exec.Total.modify (Exec.Total.pure rfl)
      omega
    obtain ⟨status, b', hr, rfl⟩ := htotal
    exact ⟨b', hr⟩
  · intro c _
    rw [List.length_append]
    omega

/-- What `stats_add_string` prints. -/
def stringText (key val : List UInt8) : List UInt8 :=
  [34] ++ printed key ++ [34, 58, 34] ++ printed val ++ [34, 44, 32]

/-- What `stats_add_num` prints. -/
def numText (key : List UInt8) (val : ℤ) : List UInt8 :=
  [34] ++ printed key ++ [34, 58] ++ Decimal.ofInt val ++ [44, 32]

/-- What `stats_begin_nesting` prints. -/
def beginText (key : List UInt8) : List UInt8 := [34] ++ printed key ++ [34, 58, 32, 123]

/-- An `int64_t`. -/
def Int64 (z : ℤ) : Prop := -2 ^ 63 ≤ z ∧ z < 2 ^ 63

section Prints

variable {P : List UInt8 → Prop} {key val : List UInt8}

/-- `stats_add_string` writes a member with a text, in the space that it is counted for. -/
lemma addString_writes : Writes P (statsAddString key val) (· ++ stringText key val)
    (key.length + val.length + 7) := by
  have hkey := length_printed_le key
  have hval := length_printed_le val
  refine statsPrint_writes (fun t' ht => ?_) (fun h => ?_) ?_ P
  · obtain ⟨k, hk, ht⟩ := Exec.except_bind_ok.mp ht
    obtain ⟨v, hv, ht⟩ := Exec.except_bind_ok.mp ht
    rw [← Except.ok.inj ht, eq_printed hk, eq_printed hv]
    rfl
  · rw [precision_eq (by omega), precision_eq (by omega)]
    rfl
  · simp only [stringText, List.length_append, List.length_cons, List.length_nil]
    omega

/-- `stats_add_num` writes a member with a number, in the space that it is counted for. -/
lemma addNum_writes {z : ℤ} (hz : Int64 z) : Writes P (statsAddNum key z) (· ++ numText key z)
    (numSize key) := by
  have hkey := length_printed_le key
  have hdigits := Decimal.length_ofInt_le hz.1 hz.2
  have hsize : numSize key = key.length + 20 + 8 := rfl
  refine statsPrint_writes (fun t' ht => ?_) (fun h => ?_) ?_ P
  · obtain ⟨k, hk, ht⟩ := Exec.except_bind_ok.mp ht
    rw [← Except.ok.inj ht, eq_printed hk]
    rfl
  · rw [precision_eq (by omega)]
    rfl
  · simp only [numText, List.length_append, List.length_cons, List.length_nil]
    omega

/-- `stats_begin_nesting` writes the start of an object, in the space that it is counted for. -/
lemma beginNesting_writes : Writes P (statsBeginNesting key) (· ++ beginText key)
    (key.length + 7) := by
  have hkey := length_printed_le key
  refine statsPrint_writes (fun t' ht => ?_) (fun h => ?_) ?_ P
  · obtain ⟨k, hk, ht⟩ := Exec.except_bind_ok.mp ht
    rw [← Except.ok.inj ht, eq_printed hk]
    rfl
  · rw [precision_eq (by omega)]
    rfl
  · simp only [beginText, List.length_append, List.length_cons, List.length_nil]
    omega

end Prints

/-! ## Patching the end -/

/-- What `stats_end_nesting` makes of the bytes in the buffer. -/
def endText (text : List UInt8) : List UInt8 :=
  if text[text.length - 2]? = some 44 then text.take (text.length - 2) ++ [125, 44]
  else if text[text.length - 2]? = some 125 then text.take (text.length - 2) ++ [125, 125, 44]
  else text

/-- What `stats_add_footer` makes of the bytes in the buffer. -/
def footerText (c : List UInt8) : List UInt8 := c.dropLast ++ [125, 10]

/-- Two bytes in a row are written. -/
lemma take_set_set {data : List UInt8} {i : ℕ} {x y : UInt8} (h : i + 2 ≤ data.length) :
    ((data.set i x).set (i + 1) y).take (i + 2) = data.take i ++ [x, y] := by
  induction i generalizing data with
  | zero =>
    cases data with
    | nil => simp at h
    | cons a rest =>
      cases rest with
      | nil => simp at h
      | cons b rest => rfl
  | succ i ih =>
    cases data with
    | nil => simp at h
    | cons a rest =>
      simp only [List.set_cons_succ, List.take_succ_cons, List.cons_append,
        List.cons.injEq, true_and]
      exact ih (by simpa using h)

/-- A byte that is written. -/
lemma poke_total {b : StatsBuffer} {i : ℕ} {x : UInt8} (h : i < b.data.length) :
    Exec.Total (poke i x) (fun _ b' => b' = { b with data := b.data.set i x }) b :=
  Exec.Total.get (Exec.Total.ite (fun _ => ⟨_, _, rfl, rfl⟩) fun hn => absurd h hn)

/-- Two bytes in a row are written. -/
lemma poke_poke_total {b : StatsBuffer} {i : ℕ} {x y : UInt8} {next : StatsCore Rstatus}
    {Q : Rstatus → StatsBuffer → Prop} (h : i + 1 < b.data.length)
    (hf : Exec.Total next Q { b with data := (b.data.set i x).set (i + 1) y }) :
    Exec.Total (do poke i x; poke (i + 1) y; next) Q b := by
  refine Exec.Total.bind (poke_total (by omega)) fun _ b₁ hb₁ => ?_
  refine Exec.Total.bind (poke_total ?_) fun _ b₂ hb₂ => ?_
  · rw [hb₁, List.length_set]
    exact h
  · rw [hb₂, hb₁]
    exact hf

/-- `stats_end_nesting` writes over the last comma, and needs one byte more. -/
lemma endNesting_total {b : StatsBuffer} (h2 : 2 ≤ b.len) (hlen : b.len ≤ b.data.length) :
    Exec.Total statsEndNesting (fun status b' => (b.len < b.data.length → status = .ok) ∧
      (status = .ok → b'.len ≤ b'.data.length ∧ b'.content = endText b.content ∧
        b'.data.length = b.data.length)) b := by
  obtain ⟨i, hi⟩ : ∃ i, b.len = i + 2 := ⟨b.len - 2, by omega⟩
  have hcontent : b.content.length = i + 2 := by rw [b.length_content hlen, hi]
  have hlast : b.content[i]? = some b.data[i] := by
    rw [StatsBuffer.content, List.getElem?_take_of_lt (by omega),
      List.getElem?_eq_getElem (by omega)]
  have htake : b.content.take i = b.data.take i := by
    rw [StatsBuffer.content, List.take_take, Nat.min_eq_left (by omega)]
  have hpeek : Exec.Total (peek i) (fun x b' => x = b.data[i] ∧ b = b') b := by
    refine Exec.Total.get ?_
    rw [List.getElem?_eq_getElem (by omega)]
    exact Exec.Total.pure ⟨rfl, rfl⟩
  have hend : endText b.content = if b.data[i] = 44 then b.data.take i ++ [125, 44]
      else if b.data[i] = 125 then b.data.take i ++ [125, 125, 44] else b.content := by
    simp only [endText, hcontent, Nat.add_sub_cancel, hlast, htake, Option.some.injEq]
  refine Exec.Total.get (Exec.Total.ite (fun h => absurd h (by omega)) fun _ => ?_)
  rw [hi, Nat.add_sub_cancel]
  refine Exec.Total.bind hpeek fun x b' hx => ?_
  obtain ⟨rfl, rfl⟩ := hx
  refine Exec.Total.ite (fun h44 => ?_) fun h44 => Exec.Total.ite (fun h125 => ?_) fun h125 => ?_
  · refine poke_poke_total (by omega) (Exec.Total.pure ⟨fun _ => rfl, fun _ => ⟨?_, ?_, ?_⟩⟩)
    · rw [List.length_set, List.length_set]
      exact hlen
    · rw [hend, if_pos h44, StatsBuffer.content, hi]
      exact take_set_set (by omega)
    · rw [List.length_set, List.length_set]
  · refine Exec.Total.ite (fun hfull => Exec.Total.pure ⟨fun h => ?_, fun h => ?_⟩) fun hfull => ?_
    · omega
    · cases h
    · refine poke_poke_total (by omega) (Exec.Total.modify (Exec.Total.pure
        ⟨fun _ => rfl, fun _ => ⟨?_, ?_, ?_⟩⟩))
      · show b.len + 1 ≤ _
        rw [List.length_set, List.length_set]
        omega
      · rw [hend, if_neg h44, if_pos h125, StatsBuffer.content]
        show ((b.data.set (i + 1) 125).set (i + 1 + 1) 44).take (b.len + 1) = _
        have hpair : (b.data.take i ++ [125] : List UInt8) = b.data.take (i + 1) := by
          rw [← h125, List.take_append_getElem]
        have hb : b.len + 1 = i + 1 + 2 := by omega
        rw [hb, take_set_set (by omega), ← hpair, List.append_assoc]
        rfl
      · rw [List.length_set, List.length_set]
  · refine Exec.Total.pure ⟨fun _ => rfl, fun _ => ⟨hlen, ?_, rfl⟩⟩
    rw [hend, if_neg h44, if_neg h125]

/-- The end of an object takes one byte more at most. -/
lemma length_endText_le (c : List UInt8) (h : 2 ≤ c.length) :
    (endText c).length ≤ c.length + 1 := by
  unfold endText
  split_ifs
  · simp only [List.length_append, List.length_take, List.length_cons, List.length_nil]
    omega
  · simp only [List.length_append, List.length_take, List.length_cons, List.length_nil]
    omega
  · exact Nat.le_succ _

/-- **The end of an object is patched.** -/
lemma endNesting_writes : Writes (fun c => 2 ≤ c.length) statsEndNesting endText 1 := by
  constructor
  · intro b b' hlen h2 hr
    rw [b.length_content hlen] at h2
    exact ((endNesting_total h2 hlen).elim hr).2 rfl
  · intro b h2 hroom _
    have hlen : b.len ≤ b.data.length := by omega
    rw [b.length_content hlen] at h2
    obtain ⟨status, b', hr, hok, -⟩ := endNesting_total h2 hlen
    obtain rfl := hok (by omega)
    exact ⟨b', hr⟩
  · exact length_endText_le

/-- `stats_add_footer` writes over the last comma. -/
lemma footer_total {b : StatsBuffer} (h1 : 1 ≤ b.len) (hlen : b.len ≤ b.data.length) :
    Exec.Total statsAddFooter (fun status b' => (b.len < b.data.length → status = .ok) ∧
      (status = .ok → b'.len ≤ b'.data.length ∧ b'.content = footerText b.content ∧
        b'.data.length = b.data.length)) b := by
  refine Exec.Total.get (Exec.Total.ite (fun hfull => Exec.Total.pure ⟨fun h => ?_, fun h => ?_⟩)
    fun hfull => ?_)
  · omega
  · cases h
  · refine Exec.Total.ite (fun h => absurd h (by omega)) fun _ => ?_
    refine poke_poke_total (by omega) (Exec.Total.modify (Exec.Total.pure
      ⟨fun _ => rfl, fun _ => ⟨?_, ?_, ?_⟩⟩))
    · show b.len + 1 ≤ _
      rw [List.length_set, List.length_set]
      omega
    · show ((b.data.set (b.len - 1) 125).set (b.len - 1 + 1) 10).take (b.len + 1) = _
      have hb : b.len + 1 = b.len - 1 + 2 := by omega
      rw [hb, take_set_set (by omega), footerText, List.dropLast_eq_take, b.length_content hlen,
        StatsBuffer.content, List.take_take, Nat.min_eq_left (by omega)]
    · rw [List.length_set, List.length_set]

/-- **The end of the response.** -/
lemma footer_writes : Writes (fun c => 1 ≤ c.length) statsAddFooter footerText 1 := by
  constructor
  · intro b b' hlen h1 hr
    rw [b.length_content hlen] at h1
    exact ((footer_total h1 hlen).elim hr).2 rfl
  · intro b h1 hroom _
    have hlen : b.len ≤ b.data.length := by omega
    rw [b.length_content hlen] at h1
    obtain ⟨status, b', hr, hok, -⟩ := footer_total h1 hlen
    obtain rfl := hok (by omega)
    exact ⟨b', hr⟩
  · intro c h1
    rw [footerText, List.length_append, List.length_dropLast]
    show c.length - 1 + 2 ≤ _
    omega

/-! ## The response -/

/-- The metrics are printed. -/
def metricText (metric : List StatsMetric) (c : List UInt8) : List UInt8 :=
  metric.foldl (fun c stm => c ++ numText stm.name stm.value) c

/-- A server is printed. -/
def serverText (c : List UInt8) (sts : StatsServer) : List UInt8 :=
  endText (metricText sts.metric (c ++ beginText sts.name))

/-- A pool is printed. -/
def poolText (c : List UInt8) (stp : StatsPool) : List UInt8 :=
  endText (stp.server.foldl serverText (metricText stp.metric (c ++ beginText stp.name)))

/-- The header is printed, with its first byte. -/
def headerText (st : StatsInput) : List UInt8 :=
  [123] ++ stringText serviceStr service ++ stringText sourceStr st.source ++
    stringText versionStr version ++ numText uptimeStr (st.curTs - st.startTs) ++
    numText timestampStr st.curTs ++ numText ntotalConnStr st.ntotalConn ++
    numText ncurrConnStr st.ncurrConn

/-- The bytes of the response. -/
def responseText (st : StatsInput) : List UInt8 :=
  footerText (st.sum.foldl poolText (headerText st))

/-- The values that are printed are `int64_t`. -/
structure StatsInput.Int64 (st : StatsInput) : Prop where
  uptime : GfwProxy.Int64 (st.curTs - st.startTs)
  curTs : GfwProxy.Int64 st.curTs
  ntotalConn : GfwProxy.Int64 st.ntotalConn
  ncurrConn : GfwProxy.Int64 st.ncurrConn
  pool : ∀ stp ∈ st.sum, ∀ stm ∈ stp.metric, GfwProxy.Int64 stm.value
  server : ∀ stp ∈ st.sum, ∀ sts ∈ stp.server, ∀ stm ∈ sts.metric, GfwProxy.Int64 stm.value

section Response

variable {st : StatsInput} {b : StatsBuffer}

/-- `stats_copy_metric` writes the members, in the space that they are counted for. -/
lemma copyMetric_writes {P : List UInt8 → Prop} (hP : ∀ c t, P c → P (c ++ t))
    {metric : List StatsMetric} (h : ∀ stm ∈ metric, Int64 stm.value) :
    Writes P (statsCopyMetric metric) (metricText metric) (metricSize metric) :=
  Writes.map (fun stm hm => addNum_writes (h stm hm)) fun _ _ c hc => hP c _ hc

/-- The end of an object is no shorter than what it ends. -/
lemma le_length_endText {c : List UInt8} (h : 2 ≤ c.length) : c.length ≤ (endText c).length := by
  unfold endText
  split_ifs
  · simp only [List.length_append, List.length_take, List.length_cons, List.length_nil]
    omega
  · simp only [List.length_append, List.length_take, List.length_cons, List.length_nil]
    omega
  · exact le_rfl

/-- Behind the start of an object there are two bytes to write over. -/
lemma two_le_beginText (c key : List UInt8) : 2 ≤ (c ++ beginText key).length := by
  simp only [beginText, List.length_append, List.length_cons, List.length_nil]
  omega

/-- Two bytes stay two bytes. -/
lemma two_le_append (c t : List UInt8) (h : 2 ≤ c.length) : 2 ≤ (c ++ t).length := by
  rw [List.length_append]
  omega

/-- The metrics are appended. -/
lemma metricText_eq (metric : List StatsMetric) (c : List UInt8) :
    metricText metric c = c ++ metric.flatMap fun stm => numText stm.name stm.value := by
  induction metric generalizing c with
  | nil => exact (List.append_nil c).symm
  | cons stm rest ih =>
    show metricText rest (c ++ numText stm.name stm.value) = _
    rw [ih, List.flatMap_cons, List.append_assoc]

/-- Behind the members there are two bytes to write over. -/
lemma two_le_metricText (metric : List StatsMetric) (c : List UInt8) (h : 2 ≤ c.length) :
    2 ≤ (metricText metric c).length := by
  rw [metricText_eq]
  exact two_le_append c _ h

/-- Behind a server there are two bytes to write over. -/
lemma two_le_serverText (sts : StatsServer) (c : List UInt8) : 2 ≤ (serverText c sts).length := by
  have h := two_le_metricText sts.metric _ (two_le_beginText c sts.name)
  exact h.trans (le_length_endText h)

/-- **A server.** -/
lemma addServer_writes {sts : StatsServer} (h : ∀ stm ∈ sts.metric, Int64 stm.value)
    (P : List UInt8 → Prop) :
    Writes P (statsAddServer sts) (serverText · sts) (serverSize sts) := by
  refine Writes.mono (beginNesting_writes.cons (fun c _ => two_le_beginText c sts.name)
    ((copyMetric_writes two_le_append h).cons (two_le_metricText sts.metric)
      (endNesting_writes.cons (fun c _ => trivial) (Writes.nil fun _ => True)))) ?_
  unfold serverSize serverExtra
  omega

/-- Behind the servers there are two bytes to write over. -/
lemma two_le_servers (servers : List StatsServer) (c : List UInt8) (h : 2 ≤ c.length) :
    2 ≤ (servers.foldl serverText c).length :=
  List.foldlRecOn (motive := fun c => 2 ≤ c.length) servers serverText h
    fun c _ sts _ => two_le_serverText sts c

/-- Behind a pool there are two bytes to write over. -/
lemma two_le_poolText (stp : StatsPool) (c : List UInt8) : 2 ≤ (poolText c stp).length := by
  have h := two_le_servers stp.server _
    (two_le_metricText stp.metric _ (two_le_beginText c stp.name))
  exact h.trans (le_length_endText h)

/-- **A pool.** -/
lemma addPool_writes {stp : StatsPool} (hm : ∀ stm ∈ stp.metric, Int64 stm.value)
    (hs : ∀ sts ∈ stp.server, ∀ stm ∈ sts.metric, Int64 stm.value) (P : List UInt8 → Prop) :
    Writes P (statsAddPool stp) (poolText · stp) (poolSize stp) := by
  have hservers : Writes (fun c => 2 ≤ c.length) (statsAll (stp.server.map statsAddServer))
      (fun c => stp.server.foldl serverText c) (stp.server.map serverSize).sum :=
    Writes.map (fun sts hmem => addServer_writes (hs sts hmem) _)
      fun sts _ c _ => two_le_serverText sts c
  refine Writes.mono (beginNesting_writes.cons (fun c _ => two_le_beginText c stp.name)
    ((copyMetric_writes two_le_append hm).cons (two_le_metricText stp.metric)
      (hservers.cons (two_le_servers stp.server)
        (endNesting_writes.cons (fun c _ => trivial) (Writes.nil fun _ => True))))) ?_
  unfold poolSize poolExtra
  omega

/-- The header behind its first byte. -/
def headerRest (st : StatsInput) (c : List UInt8) : List UInt8 :=
  c ++ stringText serviceStr service ++ stringText sourceStr st.source ++
    stringText versionStr version ++ numText uptimeStr (st.curTs - st.startTs) ++
    numText timestampStr st.curTs ++ numText ntotalConnStr st.ntotalConn ++
    numText ncurrConnStr st.ncurrConn

/-- **The header**, for which there is more room than it needs. -/
lemma header_writes (h : st.Int64) : Writes (fun c => 1 ≤ c.length) (statsAll (headerCalls st))
    (headerRest st) (headerSize st.source - 1) := by
  have hP : ∀ t c : List UInt8, 1 ≤ c.length → 1 ≤ (c ++ t).length := by
    intro t c hc
    rw [List.length_append]
    omega
  refine Writes.mono (addString_writes.keep (hP _) (addString_writes.keep (hP _)
    (addString_writes.keep (hP _) ((addNum_writes h.uptime).keep (hP _)
      ((addNum_writes h.curTs).keep (hP _) ((addNum_writes h.ntotalConn).keep (hP _)
        ((addNum_writes h.ncurrConn).keep (hP _) (Writes.nil _)))))))) ?_
  unfold headerSize stringSize keyValueExtra
  omega

/-- The first byte is written, and then the calls are made. -/
lemma firstByte_run {calls : StatsCore Rstatus} (hb : b.data ≠ []) :
    (do poke 0 123; modify fun buf => { buf with len := 1 }; calls : StatsCore Rstatus) b =
      calls { data := b.data.set 0 123, len := 1 } := by
  obtain ⟨_, b', hr, rfl⟩ := poke_total (x := 123) (List.length_pos_of_ne_nil hb)
  show (poke 0 123 b >>= _) = _
  rw [hr]
  rfl

/-- The first of the calls may be replaced. -/
lemma statsAll_congr {x y : StatsCore Rstatus} {xs : List (StatsCore Rstatus)} {b b' : StatsBuffer}
    (h : x b = y b') : statsAll (x :: xs) b = statsAll (y :: xs) b' := by
  show (x b >>= _) = (y b' >>= _)
  rw [h]

/-- All calls behind the first byte. -/
lemma calls_writes (h : st.Int64) : Writes (fun c => 1 ≤ c.length)
    (statsAll [statsAll (headerCalls st), statsAll (st.sum.map statsAddPool), statsAddFooter])
    (fun c => footerText (st.sum.foldl poolText (headerRest st c)))
    (headerSize st.source + (st.sum.map poolSize).sum) := by
  have hheader : ∀ c : List UInt8, 1 ≤ c.length → 1 ≤ (headerRest st c).length := by
    intro c hc
    simp only [headerRest, List.length_append]
    omega
  have hpool : ∀ stp ∈ st.sum, ∀ c : List UInt8, 1 ≤ c.length → 1 ≤ (poolText c stp).length := by
    intro stp _ c _
    exact Nat.le_of_succ_le (two_le_poolText stp c)
  have hpools : ∀ c : List UInt8, 1 ≤ c.length → 1 ≤ (st.sum.foldl poolText c).length :=
    fun c hc => List.foldlRecOn (motive := fun c => 1 ≤ c.length) st.sum poolText hc
      fun c hc stp hm => hpool stp hm c hc
  refine Writes.mono ((header_writes h).cons hheader
    ((Writes.map (fun stp hm => addPool_writes (h.pool stp hm) (h.server stp hm) _) hpool).cons
      hpools (footer_writes.cons (fun _ _ => trivial) (Writes.nil fun _ => True)))) ?_
  unfold headerSize stringSize keyValueExtra
  omega

/-- **What the response is, and how much room it needs.** -/
theorem statsMakeRsp_spec (h : st.Int64) (hb : b.data ≠ []) :
    (∀ b', statsMakeRsp st b = .ok (.ok, b') → b'.content = responseText st ∧
      b'.data.length = b.data.length ∧ b'.len ≤ b.data.length) ∧
    (1 + headerSize st.source + (st.sum.map poolSize).sum + 2 ≤ b.data.length →
      b.data.length < 2 ^ 31 → ∃ b', statsMakeRsp st b = .ok (.ok, b')) := by
  have hpos : 0 < b.data.length := List.length_pos_of_ne_nil hb
  obtain ⟨x, rest, hx⟩ := List.exists_cons_of_ne_nil hb
  have hcontent : StatsBuffer.content { data := b.data.set 0 123, len := 1 } = [123] := by
    rw [StatsBuffer.content, hx]
    rfl
  have hlen : (b.data.set 0 123).length = b.data.length := List.length_set
  have hcalls := calls_writes h
  have hrun : statsMakeRsp st b = statsAll [statsAll (headerCalls st),
      statsAll (st.sum.map statsAddPool), statsAddFooter] { data := b.data.set 0 123, len := 1 } :=
    statsAll_congr (firstByte_run hb)
  rw [hrun]
  constructor
  · intro b' hr
    obtain ⟨hle, hc, hd⟩ :=
      hcalls.content (by rw [hlen]; exact hpos) (by rw [hcontent]; exact le_rfl) hr
    have hd' : b'.data.length = b.data.length := hd.trans hlen
    refine ⟨?_, hd', hd' ▸ hle⟩
    rw [hc, hcontent]
    rfl
  · intro hroom hsize
    refine hcalls.room (by rw [hcontent]; exact le_rfl) ?_ (by rw [hlen]; exact hsize)
    rw [hlen]
    show 1 + _ + 2 ≤ _
    omega

end Response

/-! ## The size of the buffer is enough -/

section Size

variable {pools : List PoolNames} {value : Metric → ℤ}

/-- A function behind an indexed map. -/
lemma map_mapIdx {α β γ : Type} (l : List α) (f : ℕ → α → β) (g : β → γ) :
    (l.mapIdx f).map g = l.mapIdx fun i a => g (f i a) := by
  apply List.ext_getElem
  · rw [List.length_map, List.length_mapIdx, List.length_mapIdx]
  · intro i h₁ h₂
    rw [List.getElem_map, List.getElem_mapIdx, List.getElem_mapIdx]

/-- The size depends on the names only. -/
lemma poolSize_statsPoolMap (pools : List PoolNames) (value value' : Metric → ℤ) :
    (statsPoolMap pools value).map poolSize = (statsPoolMap pools value').map poolSize := by
  have hserver : ∀ (p : ℕ) (value : Metric → ℤ) (names : List (List UInt8)),
      (names.mapIdx fun i name => serverSize
        { name := name
          metric := statsServerCodec.map fun f =>
            { name := f.1.name, value := value (.server p i f.1) } }) =
      names.map fun name => name.length + serverExtra + (statsServerCodec.map fun f =>
        f.1.name.length + int64MaxDigits + keyValueExtra).sum := by
    intro p value names
    apply List.ext_getElem
    · rw [List.length_map, List.length_mapIdx]
    · intro i h₁ h₂
      rw [List.getElem_map, List.getElem_mapIdx, serverSize, metricSize, List.map_map]
      rfl
  unfold statsPoolMap
  rw [map_mapIdx, map_mapIdx]
  congr 1
  funext p pool
  simp only [poolSize, metricSize, List.map_map, map_mapIdx, hserver]
  rfl

/-- The metrics of the array `sum` have the values of its metrics. -/
lemma statsPoolMap_values {Q : ℤ → Prop} (h : ∀ m, Q (value m)) :
    (∀ stp ∈ statsPoolMap pools value, ∀ stm ∈ stp.metric, Q stm.value) ∧
      ∀ stp ∈ statsPoolMap pools value, ∀ sts ∈ stp.server, ∀ stm ∈ sts.metric, Q stm.value := by
  constructor
  · intro stp hstp stm hstm
    obtain ⟨p, hp, rfl⟩ := List.mem_mapIdx.mp hstp
    obtain ⟨f, -, rfl⟩ := List.mem_map.mp hstm
    exact h _
  · intro stp hstp sts hsts stm hstm
    obtain ⟨p, hp, rfl⟩ := List.mem_mapIdx.mp hstp
    obtain ⟨i, hi, rfl⟩ := List.mem_mapIdx.mp hsts
    obtain ⟨f, -, rfl⟩ := List.mem_map.mp hstm
    exact h _

/-- Alignment rounds up. -/
lemma le_gfAlign (d : ℕ) : d ≤ gfAlign d 8 := by
  unfold gfAlign
  omega

/-- **The buffer of `stats_create_buf` is large enough** for every response: no call fails, and
nothing is written behind its end.

**Proof sketch.** Every call writes at most the bytes that the size has for it, and leaves two bytes
behind it; the strings of the header have one byte too many in the size, which makes up for the byte
of the footer. -/
theorem statsMakeRsp_fits {st : StatsInput} {b : StatsBuffer}
    (hsum : st.sum = statsPoolMap pools value) (h : st.Int64)
    (hsize : b.data.length = statsBufSize st.source (statsPoolMap pools fun _ => 0))
    (hlt : b.data.length < 2 ^ 31) :
    ∃ b', statsMakeRsp st b = .ok (.ok, b') ∧ b'.data.length = b.data.length ∧
      b'.len ≤ b.data.length := by
  have hroom : 1 + headerSize st.source + (st.sum.map poolSize).sum + 2 ≤ b.data.length := by
    rw [hsize, statsBufSize, hsum, poolSize_statsPoolMap pools value fun _ => 0]
    exact le_gfAlign _
  have hb : b.data ≠ [] := by
    intro hnil
    rw [hnil, List.length_nil] at hroom
    omega
  obtain ⟨hwritten, hok⟩ := statsMakeRsp_spec h hb
  obtain ⟨b', hr⟩ := hok hroom hlt
  exact ⟨b', hr, (hwritten b' hr).2⟩

end Size

/-- One pool with one server. -/
def alphaNames : List PoolNames :=
  [{ name := "alpha".toUTF8.toList, server := ["server1".toUTF8.toList] }]

/-- The statistics of one pool with one server, with the longest numbers. -/
def alphaStats : StatsInput where
  source := "host".toUTF8.toList
  startTs := 0
  curTs := 2 ^ 63 - 1
  ntotalConn := -2 ^ 63
  ncurrConn := -1
  sum := statsPoolMap alphaNames fun _ => -2 ^ 63

/-- The values fit into 64 bits. -/
lemma alphaStats_int64 : alphaStats.Int64 := by
  have hvalues := @statsPoolMap_values alphaNames (fun _ => -2 ^ 63) Int64
    fun _ => ⟨le_rfl, by decide⟩
  exact ⟨⟨by decide, by decide⟩, ⟨by decide, by decide⟩, ⟨by decide, by decide⟩,
    ⟨by decide, by decide⟩, hvalues.1, hvalues.2⟩

/-- The buffer for one pool with one server. -/
def alphaBuffer : StatsBuffer where
  data := List.replicate (statsBufSize "host".toUTF8.toList (statsPoolMap alphaNames fun _ => 0)) 0
  len := 0

/-- The response fits the buffer that was created for it. -/
theorem alphaBuffer_fits : ∃ b', statsMakeRsp alphaStats alphaBuffer = .ok (.ok, b') ∧
    b'.data.length = alphaBuffer.data.length ∧ b'.len ≤ alphaBuffer.data.length := by
  have hlt : statsBufSize "host".toUTF8.toList (statsPoolMap alphaNames fun _ => 0) < 2 ^ 31 := by
    decide +kernel
  have hsum : alphaStats.sum = statsPoolMap alphaNames fun _ => -2 ^ 63 := rfl
  exact statsMakeRsp_fits hsum alphaStats_int64 List.length_replicate
    (lt_of_eq_of_lt List.length_replicate hlt)

end GfwProxy
