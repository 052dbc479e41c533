/-! # Error values: `errno` and `torque_err` -/

namespace Libtorque

/-- `errno` as the sources test it. On Linux `EWOULDBLOCK` is `EAGAIN`. -/
inductive Errno where
  | eintr
  | eagain
  | einprogress
  | other (n : Nat)
deriving DecidableEq, Repr

/-- `torque_err`; a failed system call is `TORQUE_ERR_SYSCALL + errno`. -/
inductive TorqueErr where
  | none
  | assert
  | cpudetect
  | gpudetect
  | memdetect
  | affinity
  | resource
  | inval
  | unavail
  | syscall (errno : Errno)
deriving DecidableEq, Repr

/-- The values of the enumeration and of `errno` on Linux. -/
def Errno.code : Errno → Int
  | eintr => 4
  | eagain => 11
  | einprogress => 115
  | other n => n

def TorqueErr.code : TorqueErr → Int
  | none => 0
  | assert => 1
  | cpudetect => 2
  | gpudetect => 3
  | memdetect => 4
  | affinity => 5
  | resource => 6
  | inval => 7
  | unavail => 8
  | syscall errno => 9 + errno.code

end Libtorque
