import GfwProxy.Pool.Readmission
import GfwProxy.Pool.Minimality
import GfwProxy.Pool.Shares
import GfwProxy.Proxy.Close
import GfwProxy.Proxy.Connected
import GfwProxy.Proxy.Scatter
import GfwProxy.Proxy.Budget
import GfwProxy.Proxy.FreeList
import GfwProxy.Proxy.Idle
import GfwProxy.Proxy.Verdict
import GfwProxy.Proxy.Retry
import GfwProxy.Rbtree.Timeout
import GfwProxy.Net.Safety
import GfwProxy.Stats.Document
import GfwProxy.Conf.Agree
import GfwProxy.Recv.Copies
import GfwProxy.Hashkit.HashTag
import GfwProxy.Conf.Directive
import GfwProxy.Conf.Pools
import GfwProxy.Hashkit.Jenkins
import GfwProxy.Conf.Number
import GfwProxy.Util.Printf
import GfwProxy.Hashkit.Bytewise
import GfwProxy.Hashkit.Md5
import GfwProxy.Queue.Tailq
