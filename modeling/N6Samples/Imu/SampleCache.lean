import N6Samples.Imu.Fetch

/-! # The sample cache over whole runs

After initialization a client fetches and reads channels in any order. The cache
always holds the last sample of each sensor, so what a channel read reports is
determined by the transactions before it.
-/

namespace N6Samples.Ism330dlc

open Transaction Rounding

namespace Driver

/-! ## Sessions -/

/-- The calls of the sensor API. -/
inductive ApiCall where
  | sampleFetch (chan : SensorChannel)
  | channelGet (chan : SensorChannel)
deriving DecidableEq

abbrev ApiResult := Except Errno (List SensorValue)
abbrev ApiEntry := Entry Cmd Resp ApiCall ApiResult

/-- A fetch writes no values, a channel read issues no transaction. -/
def serve (F : FloatUnit) : ApiCall → Data → BusProg (ApiResult × Data)
  | .sampleFetch chan, data =>
      sampleFetch F chan data >>= fun r => .ret (r.1.map fun _ => [], r.2)
  | .channelGet chan, data => .ret (channelGet chan data, data)

/-! ## The cache and the history -/

/-- The sample this entry took from `src`, if it is a fetch that covers `src` and
both of its reads succeeded. -/
def entrySample (F : FloatUnit) (src : Source) (e : ApiEntry) : Option Axes :=
  match e.call with
  | .sampleFetch chan => covered F src chan e.log
  | .channelGet _ => none

def lastSample (F : FloatUnit) (src : Source) (past : List ApiEntry) : Axes :=
  latest (entrySample F src) ⟨0, 0, 0⟩ past

/-- The cache is the last sample of each sensor. -/
structure Cached (F : FloatUnit) (past : List ApiEntry) (data : Data) : Prop where
  acc : data.acc = lastSample F accSource past
  gyro : data.gyro = lastSample F gyroSource past

theorem covered_getD (F : FloatUnit) (chan : SensorChannel) (data : Data) {S : Type}
    (peer : BusPeer S) (s : S) :
    let o := run peer (sampleFetch F chan data) s
    o.value.2.acc = (covered F accSource chan o.log).getD data.acc ∧
      o.value.2.gyro = (covered F gyroSource chan o.log).getD data.gyro := by
  intro o
  have hvalue : o.value = fetched F chan o.log data := sampleFetch_value F chan data peer s
  rw [hvalue]
  exact ⟨rfl, rfl⟩

/-- One call: a fetch replaces what it sampled, a channel read replaces nothing. -/
theorem serve_cached {F : FloatUnit} {S : Type} (peer : BusPeer S) (past : List ApiEntry)
    (call : ApiCall) (data : Data) (s : S) (h : Cached F past data) :
    Cached F (past ++ [entryOf (serve F) peer call data s])
      (run peer (serve F call data) s).value.2 := by
  cases call with
  | channelGet chan =>
      constructor
      · rw [lastSample, latest_concat]
        exact h.acc
      · rw [lastSample, latest_concat]
        exact h.gyro
  | sampleFetch chan =>
      rcases covered_getD F chan data peer s with ⟨hacc, hgyro⟩
      simp only [serve, run_bind, run_ret]
      constructor
      · rw [lastSample, latest_concat, ← lastSample, ← h.acc, hacc]
        simp only [entrySample, entryOf, serve, run_bind, run_ret, List.append_nil]
      · rw [lastSample, latest_concat, ← lastSample, ← h.gyro, hgyro]
        simp only [entrySample, entryOf, serve, run_bind, run_ret, List.append_nil]

/-! ## Initialization leaves the cache alone -/

theorem checkObj_returns {σ α : Type} {allowed : α → Prop} {p : BusProg (Status × σ)}
    {onError : σ → α} {rest : σ → BusProg α} (herror : ∀ obj, allowed (onError obj))
    (hrest : ∀ obj, Returns allowed (rest obj)) : Returns allowed (checkObj p onError rest) := by
  apply Returns.bind
  intro r
  by_cases hr : r.1 = .ok
  · rw [if_pos hr]
    exact hrest r.2
  · rw [if_neg hr]
    exact Returns.ret (herror r.2)

theorem init_keeps_cache (F : FloatUnit) (cfg : Config) (busReady : Bool) (data : Data) :
    Returns (fun r => r.2.acc = data.acc ∧ r.2.gyro = data.gyro) (init F cfg busReady data) := by
  unfold init
  cases busReady with
  | false => exact Returns.ret ⟨rfl, rfl⟩
  | true =>
      apply Returns.bind
      intro id
      by_cases hid : id.status = .ok ∧ byteAt id.buf 0 = ism330dlcId
      · rw [if_pos hid]
        unfold setup
        refine checkObj_returns (fun _ => ⟨rfl, rfl⟩) fun obj => ?_
        refine checkObj_returns (fun _ => ⟨rfl, rfl⟩) fun obj => ?_
        refine checkObj_returns (fun _ => ⟨rfl, rfl⟩) fun obj => ?_
        exact Returns.ret ⟨rfl, rfl⟩
      · rw [if_neg hid]
        exact Returns.ret ⟨rfl, rfl⟩

/-! ## What a channel read reports -/

/-- The values of `channel_get`, from the last sample of each sensor. -/
def reported (acc gyro : Axes) (chan : SensorChannel) : ApiResult :=
  match chan with
  | .accelX => .ok [mgToSensorValue acc.x]
  | .accelY => .ok [mgToSensorValue acc.y]
  | .accelZ => .ok [mgToSensorValue acc.z]
  | .accelXyz => .ok ([acc.x, acc.y, acc.z].map mgToSensorValue)
  | .gyroX => .ok [mdpsToSensorValue gyro.x]
  | .gyroY => .ok [mdpsToSensorValue gyro.y]
  | .gyroZ => .ok [mdpsToSensorValue gyro.z]
  | .gyroXyz => .ok ([gyro.x, gyro.y, gyro.z].map mdpsToSensorValue)
  | .all => .error .enotsup
  | .other _ => .error .enotsup

theorem channelGet_eq_reported (chan : SensorChannel) (data : Data) :
    channelGet chan data = reported data.acc data.gyro chan := by
  cases chan <;> rfl

/-- Every channel read of a session that follows initialization reports the last
samples before it, for every bus and every order of calls. -/
theorem channelGet_reports_last_sample (F : FloatUnit) (cfg : Config) (busReady : Bool)
    (calls : List ApiCall) {S : Type} (peer : BusPeer S) (s : S) :
    let boot := run peer (init F cfg busReady Data.zeroed) s
    boot.value.1 = .ok () →
      ∀ before e after,
        runCalls (serve F) peer calls boot.value.2 boot.state = before ++ e :: after →
          ∀ chan, e.call = .channelGet chan →
            e.result = reported (lastSample F accSource before) (lastSample F gyroSource before)
                chan ∧
              e.log = [] := by
  intro boot _ before e after hsplit chan hcall
  have hboot := init_keeps_cache F cfg busReady Data.zeroed peer s
  have hinit : Cached F [] boot.value.2 := ⟨hboot.1, hboot.2⟩
  obtain ⟨data, s', hcached, he⟩ :=
    runCalls_invariant (Cached F) (fun past => serve_cached peer past) hinit hsplit
  rw [List.nil_append] at hcached
  rw [hcall] at he
  rw [he, ← hcached.acc, ← hcached.gyro]
  exact ⟨channelGet_eq_reported chan data, rfl⟩

/-- A full fetch from a bus that answers with the identity byte: 27242 counts at 4 g. -/
theorem channelGet_reports_full_fetch :
    let F := FloatArith.exact 24
    let peer := constantPeer ism330dlcId
    let boot := run peer (init F ⟨104, 4, 104, 500⟩ true Data.zeroed) ()
    let entries := runCalls (serve F) peer [.sampleFetch .all, .channelGet .accelX]
      boot.value.2 boot.state
    boot.value.1 = .ok () ∧ lastSample F accSource (entries.take 1) = ⟨3323, 3323, 3323⟩ ∧
      (entries.drop 1).map Entry.result = [.ok [⟨32, 588661⟩]] := by
  intro F peer boot entries
  have hok : boot.value.1 = .ok () := rfl
  let fetch := run peer (serve F (.sampleFetch .all) boot.value.2) boot.state
  let read := entryOf (serve F) peer (.channelGet .accelX) fetch.value.2 fetch.state
  have h := channelGet_reports_last_sample F ⟨104, 4, 104, 500⟩ true
    [.sampleFetch .all, .channelGet .accelX] peer () hok (entries.take 1) read [] rfl .accelX rfl
  have hlast : lastSample F accSource (entries.take 1) = ⟨3323, 3323, 3323⟩ := by decide +kernel
  have hresult : read.result = .ok [⟨32, 588661⟩] := by
    rw [h.1, hlast]
    decide +kernel
  exact ⟨hok, hlast, congrArg (fun result => [result]) hresult⟩

end Driver

end N6Samples.Ism330dlc
