import Mathlib.Algebra.GroupWithZero.Nat
import Sem.Lib.OrderedSet
import Sem.Lib.Run

/-!
# Device accounting

`LoadBalancer` keeps a set of devices in the order of their job counts. The calls of
`OpenCL_Worker` request a device, attempt a number of things each of which may fail, and release
the device. Any number of calls is in progress at once; the set is locked for one request or
release at a time.

* `requestDevice`, `releaseDevice`: the set.
* `runParallel`, `matrixMult`, `kmeansCluster`, `kmeansClusterBuffers`, `fft`: the calls, as what
  they do to the set and where they may fail.
* `balancer`: the system of all calls; a call that returns leaves behind the devices that it holds.
* `Accounted`: what the counts are to be.
-/

namespace Sem.OpenCL

/-! ## The set of devices -/

/-- A device, with the number of jobs that it has. -/
structure DeviceJobList where
  deviceId : ℕ
  /-- Not decreased at zero: a call releases only a device that it has requested. -/
  numJobs : ℕ
  deriving DecidableEq, Repr

/-- `operator<` and equality. -/
instance : LE DeviceJobList where
  le a b := a.numJobs < b.numJobs ∨ a.numJobs = b.numJobs ∧ a.deviceId ≤ b.deviceId

instance : DecidableLE DeviceJobList := fun a b =>
  inferInstanceAs (Decidable (a.numJobs < b.numJobs ∨ a.numJobs = b.numJobs ∧ a.deviceId ≤ b.deviceId))

/-- The constructor of `LoadBalancer`. -/
def deviceSet (deviceIds : List ℕ) : OrderedSet DeviceJobList :=
  deviceIds.foldl (fun set d => OrderedSet.insert set ⟨d, 0⟩) []

/-- `RequestDevice`; without a device it is not defined. -/
def requestDevice : OrderedSet DeviceJobList → Option (ℕ × OrderedSet DeviceJobList)
  | [] => none
  | djl :: rest =>
    some (djl.deviceId, OrderedSet.insert rest { djl with numJobs := djl.numJobs + 1 })

/-- `ReleaseDevice`. -/
def releaseDevice (set : OrderedSet DeviceJobList) (deviceId : ℕ) : OrderedSet DeviceJobList :=
  match set.find? (·.deviceId = deviceId) with
  | none => set
  | some djl =>
    OrderedSet.insert (OrderedSet.erase set djl) { djl with numJobs := djl.numJobs - 1 }

/-! ## The calls -/

/-- What a call attempts. -/
inductive Site
  | device
  | kernel
  | setArgs
  | launch
  | createBuffer
  | readBack
  | writeBack
  /-- A comparison of lengths. -/
  | sizes
  | provider
  /-- `ReadBuffer`, which catches what it throws. -/
  | readBuffer
  /-- The dimensions of `MatrixMult`, from the lengths. -/
  | dimensions
  /-- `SetArgs` and `Run` of `MatrixMult`. -/
  | matrixArgs
  | matrixLaunch
  deriving DecidableEq, Repr

/-- How an attempt comes out. -/
inductive Outcome
  | ok
  /-- An `OpenCLException`. -/
  | openCL
  /-- Another exception, or a comparison that fails. -/
  | other
  deriving DecidableEq, Repr

/-- The rest of a call. -/
inductive Body
  | done (success : Bool)
  | request (k : ℕ → Body)
  | attempt (site : Site) (k : Outcome → Body)
  | release (deviceId : ℕ) (k : Body)

/-- One attempt after the other, each of which ends the lot if it fails. -/
def attempts (sites : List Site) (failed next : Body) : Body :=
  sites.foldr (fun site k => .attempt site fun o => if o = .ok then k else failed) next

/-- `RunParallel`. -/
def runParallel (isValid : Bool) (numThreads : ℤ) : Body :=
  if !isValid then .done false
  else if numThreads = 0 then .done false
  else .request fun deviceId =>
    attempts [.device, .kernel, .setArgs, .launch] (.done false) (.release deviceId (.done true))

/-- `MatrixMult` of buffers, which is given its device: what it throws, and what it returns. -/
def matrixMultBuffers (thrown : Body) (k : Bool → Body) : Body :=
  .attempt .dimensions fun o =>
    if o = .ok then
      attempts [.kernel] thrown <| .attempt .matrixArgs fun
        | .ok => .attempt .matrixLaunch fun
          | .ok => k true
          | .openCL => k false
          | .other => thrown
        | .openCL => k false
        | .other => thrown
    else k false

/-- `MatrixMult` of vectors. -/
def matrixMult : Body :=
  .request fun deviceId =>
    attempts [.device, .createBuffer, .createBuffer, .createBuffer] (.done false) <|
      matrixMultBuffers (.done false) fun success =>
        attempts [.readBack] (.done false) (.release deviceId (.done success))

/-- The iterations of `KmeansCluster`. -/
def kmeansIterations (failed next : Body) : ℕ → Body
  | 0 => next
  | n + 1 =>
    attempts [.launch, .launch, .readBack, .readBack, .sizes, .writeBack] failed
      (kmeansIterations failed next n)

/-- `KmeansCluster` of buffers. -/
def kmeansClusterBuffers (iterations : ℕ) (k : Bool → Body) : Body :=
  .request fun deviceId =>
    attempts [.device, .kernel, .kernel, .sizes, .setArgs, .device, .createBuffer, .createBuffer,
      .setArgs] (k false) (kmeansIterations (k false) (.release deviceId (k true)) iterations)

/-- `KmeansCluster` of vectors. -/
def kmeansCluster (isFPGA : Bool) (iterations : ℕ) : Body :=
  if isFPGA then .done false
  else .request fun _ =>
    attempts [.device, .createBuffer, .createBuffer, .createBuffer] (.done false) <|
      kmeansClusterBuffers iterations fun success =>
        if success then .attempt .readBuffer fun _ => .attempt .readBuffer fun _ => .done true
        else .done false

/-- `FFT`. -/
def fft (isValid : Bool) : Body :=
  if !isValid then .done false
  else .request fun deviceId => attempts [.provider] (.done false) (.release deviceId (.done true))

/-- The calls of a component. -/
inductive Kind
  | runParallel (isValid : Bool) (numThreads : ℤ)
  | matrixMult
  | kmeansCluster (isFPGA : Bool) (iterations : ℕ)
  | kmeansClusterBuffers (iterations : ℕ)
  | fft (isValid : Bool)
  deriving DecidableEq, Repr

/-- The body of a call. -/
def Kind.body : Kind → Body
  | .runParallel isValid numThreads => OpenCL.runParallel isValid numThreads
  | .matrixMult => OpenCL.matrixMult
  | .kmeansCluster isFPGA iterations => OpenCL.kmeansCluster isFPGA iterations
  | .kmeansClusterBuffers iterations => OpenCL.kmeansClusterBuffers iterations .done
  | .fft isValid => OpenCL.fft isValid

/-! ## The system -/

/-- A call in progress, with the devices it has requested and not released. -/
structure Call where
  kind : Kind
  body : Body
  held : List ℕ

/-- The devices in the order of their jobs, and the calls that have not returned. -/
structure Balancer where
  devices : OrderedSet DeviceJobList
  calls : List Call
  /-- The devices that calls held when they returned. -/
  unmatched : List ℕ

/-- A call starts, or goes on. -/
inductive Action
  | start (kind : Kind)
  /-- A call goes on, and if it attempts something that is how it comes out. -/
  | run (i : ℕ) (outcome : Outcome)

/-- The next thing that the call `i` does. -/
def goOn (s : Balancer) (i : ℕ) (call : Call) (outcome : Outcome) : Body → Option Balancer
  | .done _ => some
    { s with
      calls := s.calls.eraseIdx i
      unmatched := s.unmatched ++ call.held }
  | .request k => (requestDevice s.devices).map fun (deviceId, devices) =>
    { s with
      devices
      calls := s.calls.set i { call with body := k deviceId, held := deviceId :: call.held } }
  | .attempt _ k => some { s with calls := s.calls.set i { call with body := k outcome } }
  | .release deviceId k => some
    { s with
      devices := releaseDevice s.devices deviceId
      calls := s.calls.set i { call with body := k, held := call.held.erase deviceId } }

/-- One of these. -/
def step (s : Balancer) : Action → Option Balancer
  | .start kind => some { s with calls := s.calls ++ [⟨kind, kind.body, []⟩] }
  | .run i outcome => s.calls[i]?.bind fun call => goOn s i call outcome call.body

/-- All runs of calls on the devices. -/
def balancer (deviceIds : List ℕ) : Lts Balancer Action :=
  Lts.ofFun ⟨deviceSet deviceIds, [], []⟩ step

/-- The calls in progress on a device. -/
def Balancer.inProgress (s : Balancer) (deviceId : ℕ) : ℕ :=
  (s.calls.map fun call => call.held.count deviceId).sum

/-- The counts are those of the calls in progress, each device is there once, a request gets a
device with the fewest, a release is of a device that the call holds, and every request of a call
that has returned was released. -/
structure Accounted (deviceIds : List ℕ) (s : Balancer) : Prop where
  jobs : ∀ djl ∈ s.devices, djl.numJobs = s.inProgress djl.deviceId
  devices : (s.devices.map (·.deviceId)).Perm deviceIds
  least : ∀ deviceId devices, requestDevice s.devices = some (deviceId, devices) →
    ∀ d ∈ deviceIds, s.inProgress deviceId ≤ s.inProgress d
  holds : ∀ call ∈ s.calls, ∀ deviceId k, call.body = .release deviceId k → deviceId ∈ call.held
  matched : s.unmatched = []

/-- The outcomes after which a call goes on: a failure of `ReadBuffer`, or one to set the arguments or
to launch in `MatrixMult`, is only reported. -/
def Site.Passes (site : Site) (outcome : Outcome) : Prop :=
  outcome = .ok ∨ (site = .dimensions ∨ site = .readBuffer) ∨
    (site = .matrixArgs ∨ site = .matrixLaunch) ∧ outcome = .openCL

/-- `KmeansCluster` of vectors, but not on an FPGA. -/
def Kind.OfVectors : Kind → Prop
  | .kmeansCluster isFPGA _ => isFPGA = false
  | _ => False

/-- No attempt fails that ends the call, and no `KmeansCluster` of vectors returns. -/
def Clean (s : Balancer) : Action → Prop
  | .start _ => True
  | .run i outcome => ∀ call, s.calls[i]? = some call →
    (∀ site k, call.body = .attempt site k → site.Passes outcome) ∧
      ∀ success, call.body = .done success → ¬ call.kind.OfVectors

end Sem.OpenCL
