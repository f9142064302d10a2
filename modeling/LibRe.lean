import LibRe.Srtp.AuthFailure
import LibRe.Srtp.RoundTrip
import LibRe.Av1.Transport
import LibRe.H264.NalTheorems
import LibRe.Trice.Order
import LibRe.Trice.Valid
import LibRe.Trice.Nomination
import LibRe.Trice.RoleRefinement
import LibRe.Dns.RrFraming
import LibRe.Dns.RrTheorems
import LibRe.Dns.TcpTheorems
import LibRe.Websock.Segments
import LibRe.Rtmp.Segments
import LibRe.Telev.TelevTheorems
import LibRe.Rtp.Source
import LibRe.Rtcp.Boundaries
import LibRe.Rtcp.RoundTrip
import LibRe.Stun.Trailers
import LibRe.Mem.PoolTheorems
import LibRe.Tcp.SendTheorems
import LibRe.Sip.StransTheorems
import LibRe.Sip.RequestList
import LibRe.Sip.Sharing
import LibRe.Bfcp.MsgTheorems
import LibRe.Rtmp.AmfTheorems
import LibRe.Json.JsonTheorems
import LibRe.Dd.RoundTrip
import LibRe.Async.Async
import LibRe.Stun.Ctrans
import LibRe.Tmr.Tmr
import LibRe.Sipsess.SessTheorems
import LibRe.Rtmp.AmfDepth
import LibRe.Dns.NameStrings
import LibRe.Rtcp.Twcc
import LibRe.Dns.SendTcp
import LibRe.Base64.Base64
import LibRe.Uri.Uric
