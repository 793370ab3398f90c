import VmManager.Attest.Freshness
import VmManager.GuestImage.Marker
import VmManager.Metrics.Collect
import VmManager.Runtime.Launch
import VmManager.Runtime.Supervise
import VmManager.Runtime.QmpStream
import VmManager.Vm.Forgotten
import VmManager.Vm.Subscriptions
import VmManager.Vm.Servers
import VmManager.Vm.Submissions
import VmManager.Vm.Waiters
import VmManager.Vm.Strangers
import VmManager.Agent.Honest
import VmManager.Agent.Retry
import VmManager.Network.Addressing
import VmManager.Vm.OnDisk
import VmManager.Vm.Transitions
import VmManager.Vm.Rejections
import VmManager.Vm.Privilege
import VmManager.Images.References
import VmManager.Images.Recording
import VmManager.Vm.Exec
import VmManager.Agent.Reading
import VmManager.GuestImage.Inside
import VmManager.Runtime.Tail
import VmManager.Varlink.Limit
import VmManager.Runtime.Credentials
