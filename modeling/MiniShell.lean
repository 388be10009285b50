import MiniShell.Lib.Prog
import MiniShell.Model.Dispatcher
import MiniShell.Spec.Heed
import MiniShell.Spec.Signals
import MiniShell.Spec.Killed
import MiniShell.Spec.Resume
import MiniShell.Spec.Render
import MiniShell.Spec.Status
import MiniShell.Spec.SelfPipe
import MiniShell.Spec.Collect
import MiniShell.Spec.Modes
import MiniShell.Spec.Munch
import MiniShell.Spec.Limits
import MiniShell.Spec.Sysfs
import MiniShell.Spec.JobLimit
import MiniShell.Spec.Redirect
import MiniShell.Spec.Agree
import MiniShell.Spec.Console
import MiniShell.Spec.Monitor
import MiniShell.Spec.Output
import MiniShell.Spec.DeviceTree
import MiniShell.Spec.LedControl
import MiniShell.Spec.ConfigPath
import MiniShell.Spec.ProcessMonitor
import MiniShell.Spec.Stopped
import MiniShell.Spec.Simulation
import MiniShell.Spec.StartupSignals
import MiniShell.Spec.Wiring
import MiniShell.Spec.Outcome
import MiniShell.Spec.Main
