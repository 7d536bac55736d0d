import OpenIvi.Adb.Sockets
import OpenIvi.Bionic.ResolvCacheSound
import OpenIvi.Bionic.RwLock
import OpenIvi.Camera.Hal
import OpenIvi.Camera.Preview
import OpenIvi.Cutils.RecordStream
import OpenIvi.Cutils.Utf16
import OpenIvi.Edify.Builtins
import OpenIvi.Ext4.FileExtents
import OpenIvi.Ext4.SparseImage
import OpenIvi.Gps.Satellites
import OpenIvi.Gralloc.Allocator
import OpenIvi.Gralloc.BufferLock
import OpenIvi.Init.Actions
import OpenIvi.Init.LoadFirmware
import OpenIvi.Init.NextToken
import OpenIvi.Init.Services
import OpenIvi.Linker.FailedDlopen
import OpenIvi.Overlay.Conservation
import OpenIvi.Recovery.CutSafety
import OpenIvi.Recovery.ImgPatch
import OpenIvi.Recovery.MpegUpdate
import OpenIvi.Recovery.Mtd
import OpenIvi.Recovery.Verifier
import OpenIvi.Ril.AtChannel
import OpenIvi.Sensors.PollEvents
import OpenIvi.Serial.CanboxStream
import OpenIvi.Serial.NotificationQueue
import OpenIvi.Serial.PrepareBuffer
