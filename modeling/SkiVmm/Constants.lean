/-!
# `Constants` — limits shared by the trace and the scheduler

The values of `ski-config.h`, `cpu-defs.h` and the head of `op_helper.c` that more than one part reads.
-/

namespace SkiVmm

/-- `SKI_SCHED_ADJUST_MODULO`: instructions between two starvation adjustments. -/
def schedAdjustModulo : Int := 500000

/-- `SKI_SCHED_ADJUST_INC` -/
def schedAdjustInc : Int := 20

/-- `SKI_DEBUG_MAX_ADJUST` -/
def debugMaxAdjust : Int := 500

end SkiVmm
