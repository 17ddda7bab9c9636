/-
  ParaTos/Signals.lean
  ====================
  **Signal masks** (`gemdos/signals.c`).

  A guest numbers its signals as MiNT does and passes sets of them as 32-bit masks;
  the host has its own numbers and its own sets.  `mask_to_sigset` and
  `sigset_to_mask` translate, a line for each signal that both sides know, and
  `Psigblock` and `Psigsetmask` hand the translated set to the kernel.

  The two translations are two separate tables here as they are there.  That they
  say the same is `maskCodec`, and with it a program can save its mask and restore
  it (`signal_masks`).
-/
import ParaTos.Errno
import ParaTos.MaskCodec

namespace ParaTos.Signals

open MaskCodec

/-! ### Signals and sets -/

/-- `enum mint_signal`. -/
inductive MintSignal where
  | signull | sighup | sigint | sigquit | sigill | sigtrap | sigabrt | sigpriv | sigfpe
  | sigkill | sigbus | sigsegv | sigsys | sigpipe | sigalrm | sigterm | sigurg | sigstop
  | sigtstp | sigcont | sigchld | sigttin | sigttou | sigio | sigxcpu | sigxfsz
  | sigvtalrm | sigprof | sigwinch | sigusr1 | sigusr2 | sigpwr
deriving DecidableEq, Repr

def MintSignal.number : MintSignal → Nat
  | .signull => 0 | .sighup => 1 | .sigint => 2 | .sigquit => 3 | .sigill => 4
  | .sigtrap => 5 | .sigabrt => 6 | .sigpriv => 7 | .sigfpe => 8 | .sigkill => 9
  | .sigbus => 10 | .sigsegv => 11 | .sigsys => 12 | .sigpipe => 13 | .sigalrm => 14
  | .sigterm => 15 | .sigurg => 16 | .sigstop => 17 | .sigtstp => 18 | .sigcont => 19
  | .sigchld => 20 | .sigttin => 21 | .sigttou => 22 | .sigio => 23 | .sigxcpu => 24
  | .sigxfsz => 25 | .sigvtalrm => 26 | .sigprof => 27 | .sigwinch => 28 | .sigusr1 => 29
  | .sigusr2 => 30 | .sigpwr => 31

/-- The signals of the host, those that the source names and all others.  Their numbers
    are different, so the names can stand for them. -/
inductive HostSignal where
  | sighup | sigint | sigquit | sigill | sigtrap | sigabrt | sigfpe | sigkill | sigbus
  | sigsegv | sigsys | sigpipe | sigalrm | sigterm | sigurg | sigstop | sigtstp | sigcont
  | sigchld | sigttin | sigttou | sigio | sigxcpu | sigxfsz | sigvtalrm | sigprof
  | sigwinch | sigusr1 | sigusr2 | sigpwr
  | other (n : Nat)
deriving DecidableEq, Repr

/-- `sigset_t`, with `sigemptyset`, `sigaddset` and `sigismember`. -/
abbrev Sigset := HostSignal → Bool

def sigemptyset : Sigset := fun _ => false

def sigaddset (set : Sigset) (signal : HostSignal) : Sigset := Function.update set signal true

def sigismember (set : Sigset) (signal : HostSignal) : Bool := set signal

/-! ### The translations -/

/-- `1 << signal` as a `uint32_t`. -/
def signalToMask (signal : MintSignal) : UInt32 := 1 <<< UInt32.ofNat signal.number

/-- The lines of `mask_to_sigset`; `SIGPRIV` is commented out. -/
def maskToSigsetLines : List (MintSignal × HostSignal) := [
  (.sighup, .sighup), (.sigint, .sigint), (.sigquit, .sigquit), (.sigill, .sigill),
  (.sigtrap, .sigtrap), (.sigabrt, .sigabrt), (.sigfpe, .sigfpe), (.sigkill, .sigkill),
  (.sigbus, .sigbus), (.sigsegv, .sigsegv), (.sigsys, .sigsys), (.sigpipe, .sigpipe),
  (.sigalrm, .sigalrm), (.sigterm, .sigterm), (.sigurg, .sigurg), (.sigstop, .sigstop),
  (.sigtstp, .sigtstp), (.sigcont, .sigcont), (.sigchld, .sigchld), (.sigttin, .sigttin),
  (.sigttou, .sigttou), (.sigio, .sigio), (.sigxcpu, .sigxcpu), (.sigxfsz, .sigxfsz),
  (.sigvtalrm, .sigvtalrm), (.sigprof, .sigprof), (.sigwinch, .sigwinch), (.sigusr1, .sigusr1),
  (.sigusr2, .sigusr2), (.sigpwr, .sigpwr)]

/-- `mask_to_sigset(set, mask)`: every line is
    `if (mask & signal_to_mask(MINT_…)) sigaddset(set, SIG…)`. -/
def maskToSigset (mask : UInt32) : Sigset :=
  maskToSigsetLines.foldl
    (fun set line => if mask &&& signalToMask line.1 ≠ 0 then sigaddset set line.2 else set)
    sigemptyset

/-- The lines of `sigset_to_mask`. -/
def sigsetToMaskLines : List (HostSignal × MintSignal) := [
  (.sighup, .sighup), (.sigint, .sigint), (.sigquit, .sigquit), (.sigill, .sigill),
  (.sigtrap, .sigtrap), (.sigabrt, .sigabrt), (.sigfpe, .sigfpe), (.sigkill, .sigkill),
  (.sigbus, .sigbus), (.sigsegv, .sigsegv), (.sigsys, .sigsys), (.sigpipe, .sigpipe),
  (.sigalrm, .sigalrm), (.sigterm, .sigterm), (.sigurg, .sigurg), (.sigstop, .sigstop),
  (.sigtstp, .sigtstp), (.sigcont, .sigcont), (.sigchld, .sigchld), (.sigttin, .sigttin),
  (.sigttou, .sigttou), (.sigio, .sigio), (.sigxcpu, .sigxcpu), (.sigxfsz, .sigxfsz),
  (.sigvtalrm, .sigvtalrm), (.sigprof, .sigprof), (.sigwinch, .sigwinch), (.sigusr1, .sigusr1),
  (.sigusr2, .sigusr2), (.sigpwr, .sigpwr)]

/-- `sigset_to_mask(set)`: every line is
    `if (sigismember(set, SIG…)) mask |= signal_to_mask(MINT_…)`. -/
def sigsetToMask (set : Sigset) : UInt32 :=
  sigsetToMaskLines.foldl
    (fun mask line => if sigismember set line.1 then mask ||| signalToMask line.2 else mask) 0

/-! ### The calls -/

/-- What `sigprocmask` is asked to do. -/
inductive How where
  | sigBlock
  | sigSetmask
deriving DecidableEq, Repr

/-- The signals that the kernel never blocks. -/
def unblockable (signal : HostSignal) : Bool := signal = .sigkill ∨ signal = .sigstop

/-- The host's `sigprocmask(how, &set, &old)` on the blocked signals: the old set and the
    new one.  With a valid `how` and valid pointers it does not fail. -/
def sigprocmask (how : How) (set blocked : Sigset) : Except Errno (Sigset × Sigset) :=
  let set : Sigset := fun signal => set signal && !unblockable signal
  match how with
  | .sigBlock => .ok (blocked, fun signal => blocked signal || set signal)
  | .sigSetmask => .ok (blocked, set)

/-- `Psigblock(mask)`, and the signals that are blocked afterwards. -/
def psigblock (mask : Int32) (blocked : Sigset) : Int32 × Sigset :=
  let set := maskToSigset mask.toUInt32
  match sigprocmask .sigBlock set blocked with
  | .error e => (mapErrno e, blocked)
  | .ok (old, blocked) => ((sigsetToMask old).toInt32, blocked)

/-- `Psigsetmask(mask)`, and the signals that are blocked afterwards. -/
def psigsetmask (mask : Int32) (blocked : Sigset) : Int32 × Sigset :=
  let set := maskToSigset mask.toUInt32
  match sigprocmask .sigSetmask set blocked with
  | .error e => (mapErrno e, blocked)
  | .ok (old, blocked) => ((sigsetToMask old).toInt32, blocked)

/-! ### What the masks mean -/

/-- The host's signal with the same name, for all but `SIGNULL` and `SIGPRIV`. -/
def MintSignal.host : MintSignal → Option HostSignal
  | .signull => none
  | .sigpriv => none
  | .sighup => some .sighup | .sigint => some .sigint | .sigquit => some .sigquit
  | .sigill => some .sigill | .sigtrap => some .sigtrap | .sigabrt => some .sigabrt
  | .sigfpe => some .sigfpe | .sigkill => some .sigkill | .sigbus => some .sigbus
  | .sigsegv => some .sigsegv | .sigsys => some .sigsys | .sigpipe => some .sigpipe
  | .sigalrm => some .sigalrm | .sigterm => some .sigterm | .sigurg => some .sigurg
  | .sigstop => some .sigstop | .sigtstp => some .sigtstp | .sigcont => some .sigcont
  | .sigchld => some .sigchld | .sigttin => some .sigttin | .sigttou => some .sigttou
  | .sigio => some .sigio | .sigxcpu => some .sigxcpu | .sigxfsz => some .sigxfsz
  | .sigvtalrm => some .sigvtalrm | .sigprof => some .sigprof | .sigwinch => some .sigwinch
  | .sigusr1 => some .sigusr1 | .sigusr2 => some .sigusr2 | .sigpwr => some .sigpwr

/-- The signal has a MiNT number other than that of `SIGPRIV`. -/
def HasNumber (signal : HostSignal) : Prop := ∃ s, s ≠ MintSignal.sigpriv ∧ s.host = some signal

theorem number_lt (signal : MintSignal) : signal.number < 32 := by
  cases signal <;> decide

theorem mem_maskToSigsetLines {s : MintSignal} {signal : HostSignal} :
    (s, signal) ∈ maskToSigsetLines ↔ s.host = some signal := by
  cases s <;> simp [maskToSigsetLines, MintSignal.host, eq_comm]

/-- **The two translations agree**, line by line. -/
theorem maskCodec : Codec MintSignal.number maskToSigsetLines sigsetToMaskLines :=
  Codec.of_swap number_lt rfl (by decide) (by decide)

theorem maskToSigset_eq (mask : UInt32) :
    maskToSigset mask = decode MintSignal.number maskToSigsetLines mask := rfl

theorem sigsetToMask_eq (set : Sigset) :
    sigsetToMask set = encode MintSignal.number sigsetToMaskLines set := rfl

/-- A signal is in the set when its bit is in the mask. -/
theorem maskToSigset_iff {mask : UInt32} {signal : HostSignal} :
    maskToSigset mask signal = true ↔
      ∃ s, MintSignal.host s = some signal ∧ bit mask s.number = true := by
  rw [maskToSigset_eq, decode_eq_true number_lt]
  constructor
  · rintro ⟨⟨s, _⟩, hl, rfl, hbit⟩
    exact ⟨s, mem_maskToSigsetLines.mp hl, hbit⟩
  · rintro ⟨s, hs, hbit⟩
    exact ⟨(s, signal), mem_maskToSigsetLines.mpr hs, rfl, hbit⟩

/-- A mask read as a set and written again loses the bits of no signal. -/
theorem sigsetToMask_maskToSigset (mask : UInt32) :
    sigsetToMask (maskToSigset mask) =
      mask &&& ~~~(signalToMask .signull ||| signalToMask .sigpriv) := by
  apply eq_of_bit
  intro n hn
  have hlines : (∃ l ∈ maskToSigsetLines, l.1.number = n) ↔
      bit (~~~(signalToMask .signull ||| signalToMask .sigpriv)) n = true := by
    revert n
    decide
  rw [Bool.eq_iff_iff, sigsetToMask_eq, maskToSigset_eq, maskCodec.encode_decode, hlines, bit_and,
    Bool.and_eq_true]

/-- A set written as a mask and read again loses the signals without a number. -/
theorem maskToSigset_sigsetToMask (set : Sigset) {signal : HostSignal}
    (hs : HasNumber signal) : maskToSigset (sigsetToMask set) signal = set signal := by
  obtain ⟨s, -, hs⟩ := hs
  rw [Bool.eq_iff_iff, maskToSigset_eq, sigsetToMask_eq, maskCodec.decode_encode]
  constructor
  · exact fun h => h.1
  · intro h
    exact ⟨h, (s, signal), mem_maskToSigsetLines.mpr hs, rfl⟩

/-! ### Saving and restoring -/

/-- `Psigblock` answers the old mask and adds to it. -/
theorem psigblock_spec (mask : Int32) (blocked : Sigset) : ∃ blocked',
    psigblock mask blocked = ((sigsetToMask blocked).toInt32, blocked') ∧
    ∀ signal, blocked' signal = true ↔ blocked signal = true ∨
      (maskToSigset mask.toUInt32 signal = true ∧ signal ≠ .sigkill ∧ signal ≠ .sigstop) := by
  refine ⟨_, rfl, ?_⟩
  intro signal
  simp [unblockable]

/-- `Psigsetmask` answers the old mask and replaces it. -/
theorem psigsetmask_spec (mask : Int32) (blocked : Sigset) : ∃ blocked',
    psigsetmask mask blocked = ((sigsetToMask blocked).toInt32, blocked') ∧
    ∀ signal, blocked' signal = true ↔
      maskToSigset mask.toUInt32 signal = true ∧ signal ≠ .sigkill ∧ signal ≠ .sigstop := by
  refine ⟨_, rfl, ?_⟩
  intro signal
  simp [unblockable]

/-- **Signal masks can be saved and restored.**  A mask keeps all its bits but those of
    no signal; `Psigblock` adds its signals and answers the old mask; and `Psigsetmask` of
    that answer blocks every numbered signal as before, and answers the mask between. -/
theorem signal_masks (blocked : Sigset) (hkill : blocked .sigkill = false)
    (hstop : blocked .sigstop = false) (mask : UInt32) :
    sigsetToMask (maskToSigset mask) =
      mask &&& ~~~(signalToMask .signull ||| signalToMask .sigpriv) ∧
    ∃ old between, psigblock mask.toInt32 blocked = (old, between) ∧
      old = (sigsetToMask blocked).toInt32 ∧
      (∀ signal, between signal = true ↔ blocked signal = true ∨
        (maskToSigset mask signal = true ∧ signal ≠ .sigkill ∧ signal ≠ .sigstop)) ∧
      ∃ restored, psigsetmask old between = ((sigsetToMask between).toInt32, restored) ∧
        ∀ signal, HasNumber signal → restored signal = blocked signal := by
  refine ⟨sigsetToMask_maskToSigset mask, ?_⟩
  obtain ⟨between, hblock, hbetween⟩ := psigblock_spec mask.toInt32 blocked
  obtain ⟨restored, hset, hrestored⟩ :=
    psigsetmask_spec (sigsetToMask blocked).toInt32 between
  rw [UInt32.toUInt32_toInt32] at hbetween hrestored
  refine ⟨_, between, hblock, rfl, hbetween, restored, hset, ?_⟩
  intro signal hnumber
  rw [Bool.eq_iff_iff, hrestored, maskToSigset_sigsetToMask blocked hnumber]
  constructor
  · exact fun h => h.1
  · intro h
    refine ⟨h, ?_, ?_⟩
    · rintro rfl
      exact absurd h (by simp [hkill])
    · rintro rfl
      exact absurd h (by simp [hstop])

/-- All signals blocked for a while, with `SIGUSR1` and `SIGPWR` blocked before. -/
theorem signal_masks_usr1_pwr :
    sigsetToMask (maskToSigset 0xffffffff) =
      0xffffffff &&& ~~~(signalToMask .signull ||| signalToMask .sigpriv) ∧
    ∃ old between, psigblock (0xffffffff : UInt32).toInt32
        (fun signal => signal = .sigusr1 ∨ signal = .sigpwr) = (old, between) ∧
      old = (sigsetToMask fun signal => signal = .sigusr1 ∨ signal = .sigpwr).toInt32 ∧
      (∀ signal, between signal = true ↔ decide (signal = .sigusr1 ∨ signal = .sigpwr) = true ∨
        (maskToSigset 0xffffffff signal = true ∧ signal ≠ .sigkill ∧ signal ≠ .sigstop)) ∧
      ∃ restored, psigsetmask old between = ((sigsetToMask between).toInt32, restored) ∧
        ∀ signal, HasNumber signal →
          restored signal = decide (signal = .sigusr1 ∨ signal = .sigpwr) :=
  signal_masks (fun signal => signal = .sigusr1 ∨ signal = .sigpwr) (by decide) (by decide)
    0xffffffff

end ParaTos.Signals
