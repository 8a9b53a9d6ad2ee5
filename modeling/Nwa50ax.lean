import Nwa50ax.Boot.Bootconfig
import Nwa50ax.Boot.Restore
import Nwa50ax.Boot.Upgrade
import Nwa50ax.Http.FormSafety
import Nwa50ax.Http.HeaderBuffer
import Nwa50ax.Nand.RawPage
import Nwa50ax.Nmbm.BlockTable
import Nwa50ax.Nmbm.Logical
import Nwa50ax.Nmbm.Reload
import Nwa50ax.Nmbm.Signature
import Nwa50ax.Tcp.Backoff
import Nwa50ax.Tcp.Closing
import Nwa50ax.Tcp.Fin
import Nwa50ax.Tcp.Freed
import Nwa50ax.Tcp.Handshake
import Nwa50ax.Tcp.Options
import Nwa50ax.Tcp.Window
import Nwa50ax.Wifi.EasyMeshCfgs
import Nwa50ax.Wifi.L1Index
import Nwa50ax.Wifi.TokenList
import Nwa50ax.Zyxel.MrdImage
